import SourceSurvey.Proofs.Json.Enumeration
import SourceSurvey.Proofs.Json.Formed

/-!
What comes of a well-formed text where a string, nothing or a list is wanted: it is read, or it is
refused as a whole. A list is refused for any one of its elements.
-/

namespace SourceSurvey.Json

theorem Formed.eq_null_or {text : List Char} (h : Formed text) :
    text = ['n', 'u', 'l', 'l'] ∨ ∃ c rest, text = c :: rest ∧ isSpace c = false ∧ c ≠ 'n' := by
  cases h with
  | null => exact .inl rfl
  | string h =>
    obtain ⟨glyphs, rfl⟩ := h
    exact .inr ⟨'"', _, rfl, by decide, by decide⟩
  | number h =>
    obtain ⟨c, rest, rfl, hc⟩ := h.exists_cons
    obtain ⟨hspace, hbracket⟩ := not_bracket_of_number hc
    exact .inr ⟨c, rest, rfl, hspace, fun heq => hbracket (by simp [heq])⟩
  | _ => exact .inr ⟨_, _, rfl, by decide, by decide⟩

namespace Reader

variable {α : Type}

section Beginnings

variable {expected : String} {choose : Char → Option (Reader α)} {text : List Char}

theorem refuses_of_isString (h : IsString text) (hchoose : choose '"' = none) :
    Refuses (expecting expected choose) text := by
  obtain ⟨glyphs, rfl⟩ := h
  exact refuses_expecting (by decide) hchoose

theorem refuses_of_isNumber (h : IsNumber text)
    (hchoose : ∀ c ∉ ['n', 't', 'f', '"', '[', '\x7b', ']', '\x7d'], choose c = none) :
    Refuses (expecting expected choose) text := by
  obtain ⟨c, rest, rfl, hc⟩ := h.exists_cons
  obtain ⟨hspace, hbracket⟩ := not_bracket_of_number hc
  exact refuses_expecting hspace (hchoose c hbracket)

end Beginnings

theorem decides_text {text : List Char} (h : Formed text) : Decides Reader.text text := by
  cases h with
  | string h => exact decides_text_of_isString h
  | number h =>
    exact .inr (refuses_of_isNumber h fun c hc => if_neg fun heq : c = '"' => hc (by simp [heq]))
  | _ => exact .inr (refuses_expecting (by decide) rfl)

theorem reads_optional_null (value : Reader α) :
    Reads (optional value) ['n', 'u', 'l', 'l'] none := by
  refine ⟨⟨'n', _, rfl, by decide, by decide⟩, fun gap rest hgap _ => ?_⟩
  refine (takes_settle hgap (by simp; decide)).bind ?_
  have hletters : Takes (letters ['u', 'l', 'l']) ['u', 'l', 'l'] rest () := fun _ => rfl
  exact takes_advance_bind (hletters.bind_nil (takes_pure none rest)) 'n'

/-- What does not begin like null is left to the reader of values. -/
theorem goes_optional (value : Reader α) {gap : List Char} (hgap : Blank gap) {c : Char}
    (hc : isSpace c = false) (hn : c ≠ 'n') (rest : List Char) :
    Goes (optional value) (some <$> value) gap (c :: rest) := by
  intro place
  rw [optional, on_bind_of_ok (takes_settle hgap (by simp [hc]) place)]
  simp [hn]

theorem reads_optional_some {value : Reader α} {c : Char} {rest : List Char} {a : α}
    (h : Reads value (c :: rest) a) (hc : isSpace c = false) (hn : c ≠ 'n') :
    Reads (optional value) (c :: rest) (some a) :=
  ⟨h.begins, fun _ left hgap hends =>
    (goes_optional value hgap hc hn (rest ++ left)).takes
      ((h.map some).takes [] left blank_nil hends)⟩

theorem decides_optional {value : Reader α} {text : List Char} (htext : Formed text)
    (h : Decides value text) : Decides (optional value) text := by
  obtain rfl | ⟨c, rest, rfl, hc, hn⟩ := htext.eq_null_or
  · exact .inl ⟨none, reads_optional_null value⟩
  · obtain ⟨a, hreads⟩ | hrefuses := h
    · exact .inl ⟨some a, reads_optional_some hreads hc hn⟩
    · exact .inr fun gap left hgap => (goes_optional value hgap hc hn (rest ++ left)).fails
        ((hrefuses.map some) [] left blank_nil)

/-- Elements that are not all read make the reading of a list fail. -/
theorem fails_elements {element : Reader α} {items : List (List Char)}
    (hbegins : ∀ item ∈ items, Begins item) (hitems : ∀ item ∈ items, Decides element item)
    (hnot : ∀ values, ¬ List.Forall₂ (Reads element) items values) {behind : Bool}
    {text : List Char} (htext : Listed behind items text) (n : Nat) (reversed : List α)
    (rest : List Char) : Fails (elements element n behind reversed) (text ++ ']' :: rest) := by
  induction items generalizing behind text n reversed with
  | nil => exact absurd .nil (hnot [])
  | cons item items ih =>
    cases n with
    | zero => exact fails_failHere _ _
    | succ n =>
      obtain ⟨gap, tail, rfl, hgap, htail⟩ := htext.exists_next
      rw [List.forall_mem_cons] at hbegins hitems
      obtain ⟨value, hreads⟩ | hrefuses := hitems.1
      · have hrest := ih hbegins.2 hitems.2 (fun values h => hnot _ (.cons hreads h)) htail n
          (value :: reversed)
        have hends : Ends (tail ++ ']' :: rest) := by
          simpa using htail.ends_append (.inl rfl) rest
        simpa using (goes_elements hreads hgap n reversed hends).fails hrest
      · have hhas := takes_hasElement hgap (hbegins.1.append (tail ++ ']' :: rest))
        rw [List.append_assoc, List.append_assoc]
        exact hhas.bind_fails ((hrefuses [] _ blank_nil).bind _)

/-- A list is refused whose elements are not all read. -/
theorem refuses_list {element : Reader α} {items : List (List Char)} {inside : List Char}
    (hinside : Enumerated items inside) (hbegins : ∀ item ∈ items, Begins item)
    (hitems : ∀ item ∈ items, Decides element item)
    (hnot : ∀ values, ¬ List.Forall₂ (Reads element) items values) :
    Refuses (list element) ('[' :: (inside ++ [']'])) := by
  intro gap rest hgap
  refine fails_expecting hgap (by decide) fun reader hreader => ?_
  cases hreader
  simp only [List.append_eq, List.append_assoc, List.singleton_append]
  refine (takes_advance '[' _).bind_fails (Fails.closedBy ?_ _)
  exact fails_get (f := fun left => elements element (left.length + 1) false [])
    (fails_elements hbegins hitems hnot hinside.listed _ _ rest)

theorem decides_list {element : Reader α} (helement : ∀ text, Formed text → Decides element text)
    {text : List Char} (h : Formed text) : Decides (list element) text := by
  cases h with
  | @array items inside hitems hinside =>
    by_cases hread : ∃ values, List.Forall₂ (Reads element) items values
    · obtain ⟨values, hvalues⟩ := hread
      exact .inl ⟨values, reads_list hvalues hinside⟩
    · exact .inr (refuses_list hinside (fun item hitem => (hitems item hitem).begins)
        (fun item hitem => helement item (hitems item hitem)) (not_exists.mp hread))
  | string h => exact .inr (refuses_of_isString h rfl)
  | number h =>
    exact .inr (refuses_of_isNumber h fun c hc => if_neg fun heq : c = '[' => hc (by simp [heq]))
  | _ => exact .inr (refuses_expecting (by decide) rfl)

end Reader

end SourceSurvey.Json
