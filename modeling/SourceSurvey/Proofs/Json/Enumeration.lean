import Mathlib.Data.List.Forall2
import SourceSurvey.Proofs.Json.Failing

/-!
Enumerations in any layout. Separators may stand beside every bracket and comma; a reader of lists
gives what its reader of elements gives.
-/

namespace SourceSurvey.Json

/-- What follows an item of an enumeration: further items, each behind a comma. -/
inductive Continued : List (List Char) → List Char → Prop where
  | done {gap : List Char} (hgap : Reader.Blank gap) : Continued [] gap
  | more (item : List Char) {gap gap' text : List Char} {items : List (List Char)}
      (hgap : Reader.Blank gap) (hgap' : Reader.Blank gap') (tail : Continued items text) :
      Continued (item :: items) (gap ++ ',' :: (gap' ++ (item ++ text)))

/-- The inside of brackets that enumerates some items. -/
inductive Enumerated : List (List Char) → List Char → Prop where
  | empty {gap : List Char} (hgap : Reader.Blank gap) : Enumerated [] gap
  | items {gap item text : List Char} {items : List (List Char)} (hgap : Reader.Blank gap)
      (tail : Continued items text) : Enumerated (item :: items) (gap ++ (item ++ text))

/-- Any items can be enumerated. -/
theorem exists_enumerated (items : List (List Char)) : ∃ text, Enumerated items text := by
  have hrest (items : List (List Char)) : ∃ text, Continued items text := by
    induction items with
    | nil => exact ⟨[], .done Reader.blank_nil⟩
    | cons item items ih =>
      obtain ⟨text, htext⟩ := ih
      exact ⟨_, .more item Reader.blank_nil Reader.blank_nil htext⟩
  cases items with
  | nil => exact ⟨[], .empty Reader.blank_nil⟩
  | cons item items =>
    obtain ⟨text, htext⟩ := hrest items
    exact ⟨_, .items Reader.blank_nil htext⟩

/-- The items that are left inside of brackets, behind another one or from the first on. -/
def Listed : Bool → List (List Char) → List Char → Prop
  | true => Continued
  | false => Enumerated

/-- What leads to the next item: separators, and behind another item a comma among them. -/
def Leads : Bool → List Char → Prop
  | true, gap => ∃ before after, Reader.Blank before ∧ Reader.Blank after ∧
      gap = before ++ ',' :: after
  | false, gap => Reader.Blank gap

theorem Enumerated.listed {items : List (List Char)} {text : List Char} (h : Enumerated items text) :
    Listed false items text := h

theorem Listed.blank {behind : Bool} {text : List Char} (h : Listed behind [] text) :
    Reader.Blank text := by
  cases behind with
  | true =>
    cases h with
    | done hgap => exact hgap
  | false =>
    cases h with
    | empty hgap => exact hgap

theorem listed_nil {gap : List Char} (hgap : Reader.Blank gap) (behind : Bool) :
    Listed behind [] gap := by
  cases behind with
  | true => exact .done hgap
  | false => exact .empty hgap

theorem Listed.exists_next {behind : Bool} {item text : List Char} {items : List (List Char)}
    (h : Listed behind (item :: items) text) :
    ∃ gap tail, text = gap ++ (item ++ tail) ∧ Leads behind gap ∧ Listed true items tail := by
  cases behind with
  | true =>
    cases h with
    | @more _ gap gap' tail _ hgap hgap' htail =>
      exact ⟨gap ++ ',' :: gap', tail, by simp, ⟨gap, gap', hgap, hgap', rfl⟩, htail⟩
  | false =>
    cases h with
    | items hgap htail => exact ⟨_, _, rfl, hgap, htail⟩

/-- What is left inside of brackets, with their end, ends a value. -/
theorem Listed.ends_append {items : List (List Char)} {text : List Char}
    (h : Listed true items text) {close : Char} (hclose : close = ']' ∨ close = '\x7d')
    (rest : List Char) : Ends (text ++ [close] ++ rest) := by
  have hgap (gap : List Char) (c : Char) (tail : List Char) (hblank : Reader.Blank gap)
      (hc : c = ',' ∨ c = ']' ∨ c = '\x7d') : Ends (gap ++ c :: tail) := by
    cases gap with
    | nil => exact ends_cons (.inr hc) tail
    | cons space gap => exact ends_cons (.inl (Bool.and_eq_true_iff.mp hblank).1) _
  rw [List.append_assoc, List.singleton_append]
  cases h with
  | done hblank => exact hgap _ _ _ hblank (.inr hclose)
  | more item hblank hblank' tail =>
    rw [List.append_assoc, List.cons_append]
    exact hgap _ _ _ hblank (.inl rfl)

/-- Every item but a first one has a comma before it. -/
theorem Continued.length_le {items : List (List Char)} {text : List Char}
    (h : Continued items text) : items.length ≤ text.length := by
  induction h with
  | done => simp
  | more _ _ _ _ ih =>
    simp only [List.length_cons, List.length_append]
    omega

theorem Enumerated.length_le {items : List (List Char)} {text : List Char}
    (h : Enumerated items text) : items.length ≤ text.length + 1 := by
  cases h with
  | empty => simp
  | items _ tail =>
    have hle := tail.length_le
    simp only [List.length_cons, List.length_append]
    omega

namespace Reader

variable {α β : Type}

/-- Where an element could begin, the closing bracket shows that there is none. -/
theorem takes_hasElement_end {gap : List Char} (hgap : Blank gap) (behind : Bool)
    (rest : List Char) : Takes (hasElement behind) gap (']' :: rest) false :=
  (takes_settle hgap (by simp; decide)).bind_nil (takes_pure false _)

/-- An element comes next behind what leads to it. -/
theorem takes_hasElement {behind : Bool} {gap text : List Char} (hgap : Leads behind gap)
    (htext : Begins text) : Takes (hasElement behind) gap text true := by
  cases behind with
  | false =>
    refine (takes_settle hgap htext.head_not_space).bind_nil ?_
    obtain ⟨c, tail, rfl, -, hclose⟩ := htext
    simpa [hclose] using takes_pure true (c :: tail)
  | true =>
    obtain ⟨before, after, hbefore, hafter, rfl⟩ := hgap
    refine (takes_settle hbefore (by simp; decide)).bind ?_
    simp only [List.cons_append, List.head?_cons, ↓reduceIte]
    refine takes_advance_bind ((takes_settle hafter htext.head_not_space).bind_nil ?_) ','
    obtain ⟨c, tail, rfl, -, hclose⟩ := htext
    simpa [hclose] using takes_pure true (c :: tail)

theorem takes_listEnd {gap : List Char} (hgap : Blank gap) (rest : List Char) :
    Takes listEnd (gap ++ [']']) rest () :=
  (takes_settle hgap (by simp; decide)).bind (takes_advance ']' rest)

/-- Where there is a further element, a list does not end. -/
theorem fails_listEnd {behind : Bool} {gap text : List Char} (hgap : Leads behind gap)
    (htext : Begins text) : Fails listEnd (gap ++ text) := by
  cases behind with
  | false =>
    refine (takes_settle hgap htext.head_not_space).bind_fails ?_
    obtain ⟨c, tail, rfl, hspace, hclose⟩ := htext
    simp only [List.head?_cons]
    split
    · next heq => cases heq
    · next heq => exact absurd (Option.some.inj heq) hclose
    · refine fails_bind (fun _ => fails_bind (fun found => ?_) _) _ _
      split
      · exact fails_failNext _
      · exact fails_failNext _
    · exact fails_failNext _ _
  | true =>
    obtain ⟨before, after, hbefore, hafter, rfl⟩ := hgap
    rw [List.append_assoc]
    refine (takes_settle hbefore (by simp; decide)).bind_fails ?_
    refine fails_bind (fun _ => fails_bind (fun found => ?_) _) _ _
    split
    · exact fails_failNext _
    · exact fails_failNext _

/-- An element that is read leaves those behind it. -/
theorem goes_elements {element : Reader α} {item : List Char} {value : α}
    (hitem : Reads element item value) {behind : Bool} {gap : List Char} (hgap : Leads behind gap)
    (n : Nat) (reversed : List α) {rest : List Char} (hends : Ends rest) :
    Goes (elements element (n + 1) behind reversed) (elements element n true (value :: reversed))
      (gap ++ item) rest :=
  ((takes_hasElement hgap (hitem.begins.append rest)).goes _).trans
    ((hitem.takes [] rest blank_nil hends).goes _)

/-- The elements of a list are read to the closing bracket, which stays. Each takes a round. -/
theorem takes_elements {element : Reader α} {items : List (List Char)} {values : List α}
    (hitems : List.Forall₂ (Reads element) items values) {behind : Bool} {text : List Char}
    (htext : Listed behind items text) (n : Nat) (hn : items.length < n) (reversed : List α)
    (rest : List Char) :
    Takes (elements element n behind reversed) text (']' :: rest) (reversed.reverse ++ values) := by
  induction hitems generalizing behind text n reversed with
  | nil =>
    obtain ⟨n, rfl⟩ : ∃ m, n = m + 1 := ⟨n - 1, by simp at hn; omega⟩
    refine (takes_hasElement_end htext.blank behind rest).bind_nil ?_
    simpa using takes_pure reversed.reverse (']' :: rest)
  | @cons item value items values hitem hitems ih =>
    obtain ⟨n, rfl⟩ : ∃ m, n = m + 1 := ⟨n - 1, by simp at hn; omega⟩
    obtain ⟨gap, tail, rfl, hgap, htail⟩ := htext.exists_next
    have hrest := ih htail n (by simpa using hn) (value :: reversed)
    have hends : Ends (tail ++ ']' :: rest) := by
      simpa using htail.ends_append (.inl rfl) rest
    have h := (goes_elements hitem hgap n reversed hends).takes hrest
    simpa using h

/-- A list is read as the values of its elements, however it is laid out. -/
theorem reads_list {element : Reader α} {items : List (List Char)} {values : List α}
    (hitems : List.Forall₂ (Reads element) items values) {text : List Char}
    (htext : Enumerated items text) : Reads (list element) ('[' :: (text ++ [']'])) values := by
  refine ⟨⟨'[', _, rfl, by decide, by decide⟩, fun gap rest hgap _ => ?_⟩
  have hlength := htext.length_le
  have hinside : Takes (elements element ((text ++ ']' :: rest).length + 1) false []) text
      (']' :: rest) values :=
    takes_elements hitems htext.listed _
      (by simp only [List.length_append, List.length_cons]; omega) [] rest
  have hclosed := (takes_get (f := fun left => elements element (left.length + 1) false [])
    hinside).closedBy (takes_listEnd blank_nil rest)
  exact takes_expecting hgap (by decide) rfl (takes_advance_bind hclosed '[')

theorem takes_hasMember_end {gap : List Char} (hgap : Blank gap) (behind : Bool)
    (rest : List Char) : Takes (hasMember behind) gap ('\x7d' :: rest) false :=
  (takes_settle hgap (by simp; decide)).bind_nil (takes_pure false _)

/-- A member comes next behind what leads to it. -/
theorem takes_hasMember {behind : Bool} {gap : List Char} (hgap : Leads behind gap)
    (text : List Char) : Takes (hasMember behind) gap ('"' :: text) true := by
  cases behind with
  | false => exact (takes_settle hgap (by simp; decide)).bind_nil (takes_pure true _)
  | true =>
    obtain ⟨before, after, hbefore, hafter, rfl⟩ := hgap
    refine (takes_settle hbefore (by simp; decide)).bind ?_
    refine takes_advance_bind ((takes_settle hafter (by simp; decide)).bind_nil ?_) ','
    exact takes_pure true _

theorem takes_objectEnd (rest : List Char) : Takes objectEnd ['\x7d'] rest () :=
  (takes_settle blank_nil (by simp; decide)).bind_of_nil (takes_advance '\x7d' rest)

theorem takes_colon {gap : List Char} (hgap : Blank gap) (rest : List Char) :
    Takes colon (gap ++ [':']) rest () :=
  (takes_settle hgap (by simp; decide)).bind (takes_advance ':' rest)

end Reader

end SourceSurvey.Json
