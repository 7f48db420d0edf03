import SourceSurvey.Proofs.Json.Deciding

/-!
Filling in a form. `Form.Fills` says which members fill in a form, in whatever order they come and
whatever else comes among them; a record is read from these, and every other object is refused.
-/

namespace SourceSurvey.Json

variable {α : Type}

namespace Form

open Reader

/-- The field that a key belongs to. -/
def field? (form : Form α) (key : String) : Option (Field α) :=
  form.fields.find? fun field => field.key == key

/-- No field that has to be given is missing among some keys. -/
def Complete (form : Form α) (given : List String) : Prop :=
  ∀ field ∈ form.fields, field.required = true → field.key ∈ given

/-- Members fill in what is left of a form when some keys have been given: none of the fields is
    given twice, and none that has to be given is missing in the end. What the members change is
    listed in their order. -/
inductive Fills (form : Form α) : List String → List Pair → List (α → α) → Prop
  | done {given : List String} (hcomplete : form.Complete given) : Fills form given [] []
  | known {given : List String} {p : Pair} {pairs : List Pair} {key : String} {field : Field α}
      {change : α → α} {changes : List (α → α)} (hp : p.Sound) (hname : Spells key p.name)
      (hfield : form.field? key = some field) (hgiven : key ∉ given)
      (hvalue : Reads field.change p.value change) (tail : Fills form (key :: given) pairs changes) :
      Fills form given (p :: pairs) (change :: changes)
  | unknown {given : List String} {p : Pair} {pairs : List Pair} {key : String}
      {changes : List (α → α)} (hp : p.Sound) (hname : Spells key p.name)
      (hfield : form.field? key = none) (hvalue : Formed p.value)
      (tail : Fills form given pairs changes) : Fills form given (p :: pairs) changes

/-- What some changes make of a record, the first of them first. -/
def changed (record : α) (changes : List (α → α)) : α :=
  changes.foldl (fun record change => change record) record

/-- Fills in the member whose key has just been read, and then those behind it. -/
def fillMember (form : Form α) (n : Nat) (given : List String) (record : α) (key : String) :
    Reader α := do
  match form.field? key with
  | some field =>
    if given.contains key then Reader.failLater (.duplicateField key)
    Reader.colon
    let change ← field.change
    fillMembers form n (key :: given) (change record) true
  | none =>
    Reader.colon
    Reader.skipValue
    fillMembers form n given record true

section Members

variable {form : Form α} {p : Pair} {key : String} {field : Field α} {given : List String}
  {behind : Bool} {gap : List Char}

/-- The key of a member is read. -/
theorem goes_fillMembers (hp : p.Sound) (hname : Spells key p.name) (hgap : Leads behind gap)
    (n : Nat) (given : List String) (record : α) (rest : List Char) :
    Goes (form.fillMembers (n + 1) given record behind) (form.fillMember n given record key)
      (gap ++ p.name) rest := by
  obtain ⟨tail, htail⟩ := hp.exists_cons
  have hhas : Takes (hasMember behind) gap (p.name ++ rest) true := by
    rw [htail]
    exact takes_hasMember hgap _
  intro place
  rw [fillMembers, List.append_assoc, on_bind_of_ok (hhas place)]
  simp only [↓reduceIte]
  rw [on_bind_of_ok (takes_stringBody_of_spells hname rest (place.over gap)), Place.over_append,
    String.ofList_toList]
  rfl

/-- The value of a member that belongs to a field is read by this field. -/
theorem goes_fillMember_known (hp : p.Sound) (hfield : form.field? key = some field)
    (hgiven : key ∉ given) {change : α → α} (hvalue : Reads field.change p.value change) (n : Nat)
    (record : α) {rest : List Char} (hends : Ends rest) :
    Goes (form.fillMember n given record key)
      (form.fillMembers n (key :: given) (change record) true)
      (p.before ++ ':' :: (p.after ++ p.value)) rest := by
  have hcolon := (takes_colon hp.before (p.after ++ p.value ++ rest)).goes fun _ => do
    let change ← field.change
    fillMembers form n (key :: given) (change record) true
  have hboth := hcolon.trans ((hvalue.takes p.after rest hp.after hends).goes _)
  simpa [fillMember, hfield, hgiven] using hboth

/-- The value of a member that belongs to no field is passed over. -/
theorem goes_fillMember_unknown (hp : p.Sound) (hfield : form.field? key = none)
    (hvalue : Formed p.value) (n : Nat) (record : α) {rest : List Char} (hends : Ends rest) :
    Goes (form.fillMember n given record key) (form.fillMembers n given record true)
      (p.before ++ ':' :: (p.after ++ p.value)) rest := by
  have hcolon := (takes_colon hp.before (p.after ++ p.value ++ rest)).goes fun _ => do
    skipValue
    fillMembers form n given record true
  have hboth := hcolon.trans ((takes_skipValue hvalue hp.after hends).goes _)
  simpa [fillMember, hfield] using hboth

/-- A field is not given a second time. -/
theorem fails_fillMember_given (hfield : form.field? key = some field) (hgiven : key ∈ given)
    (n : Nat) (record : α) (text : List Char) : Fails (form.fillMember n given record key) text := by
  simp only [fillMember, hfield, List.contains_eq_mem, hgiven, decide_true, if_true]
  exact (fails_failLater _ _).bind _

/-- A field is not given a value that it refuses. -/
theorem fails_fillMember_refused (hp : p.Sound) (hfield : form.field? key = some field)
    (hvalue : Refuses field.change p.value) (n : Nat) (record : α) (rest : List Char) :
    Fails (form.fillMember n given record key)
      (p.before ++ ':' :: (p.after ++ p.value) ++ rest) := by
  by_cases hgiven : key ∈ given
  · exact fails_fillMember_given hfield hgiven n record _
  · have hrefused := (hvalue p.after rest hp.after).bind fun change =>
      fillMembers form n (key :: given) (change record) true
    have hfails := (takes_colon hp.before _).bind_fails (f := fun _ => do
      let change ← field.change
      fillMembers form n (key :: given) (change record) true) hrefused
    simpa [fillMember, hfield, hgiven] using hfails

end Members

theorem missing?_of_complete {form : Form α} {given : List String} (h : form.Complete given) :
    form.missing? given = none := by
  simp only [missing?, List.find?_eq_none, Bool.and_eq_true, Bool.not_eq_true',
    List.contains_eq_mem, decide_eq_false_iff_not, not_and, not_not]
  exact h

theorem exists_missing?_of_not_complete {form : Form α} {given : List String}
    (h : ¬ form.Complete given) : ∃ field, form.missing? given = some field := by
  rw [← Option.isSome_iff_exists, ← Option.ne_none_iff_isSome]
  intro hnone
  simp only [missing?, List.find?_eq_none, Bool.and_eq_true, Bool.not_eq_true',
    List.contains_eq_mem, decide_eq_false_iff_not, not_and, not_not] at hnone
  exact h hnone

/-- Members that fill in a form are taken up to the closing brace, which stays. Each takes a
    round. -/
theorem takes_fillMembers {form : Form α} {given : List String} {pairs : List Pair}
    {changes : List (α → α)} (h : form.Fills given pairs changes) {behind : Bool} {text : List Char}
    (htext : Listed behind (pairs.map Pair.text) text) (n : Nat) (hn : pairs.length < n) (record : α)
    (rest : List Char) :
    Takes (form.fillMembers n given record behind) text ('\x7d' :: rest)
      (changed record changes) := by
  obtain ⟨n, rfl⟩ : ∃ m, n = m + 1 := ⟨n - 1, by omega⟩
  induction h generalizing behind text n record with
  | done hcomplete =>
    refine (takes_hasMember_end htext.blank behind rest).bind_nil ?_
    simp only [Bool.false_eq_true, ↓reduceIte, missing?_of_complete hcomplete]
    exact takes_pure record _
  | @known given p pairs key field change changes hp hname hfield hgiven hvalue tail ih =>
    obtain ⟨n, rfl⟩ : ∃ m, n = m + 1 := ⟨n - 1, by simp at hn; omega⟩
    obtain ⟨gap, inside, rfl, hgap, hinside⟩ := htext.exists_next
    have htail := ih hinside (change record) n (by simpa using hn)
    have hends : Ends (inside ++ '\x7d' :: rest) := by
      simpa using hinside.ends_append (.inr rfl) rest
    have hmember := (goes_fillMember_known hp hfield hgiven hvalue (n + 1) record hends).takes htail
    have hkey := (goes_fillMembers hp hname hgap (n + 1) given record _).takes hmember
    simpa [Pair.text, changed] using hkey
  | @unknown given p pairs key changes hp hname hfield hvalue tail ih =>
    obtain ⟨n, rfl⟩ : ∃ m, n = m + 1 := ⟨n - 1, by simp at hn; omega⟩
    obtain ⟨gap, inside, rfl, hgap, hinside⟩ := htext.exists_next
    have htail := ih hinside record n (by simpa using hn)
    have hends : Ends (inside ++ '\x7d' :: rest) := by
      simpa using hinside.ends_append (.inr rfl) rest
    have hmember := (goes_fillMember_unknown hp hfield hvalue (n + 1) record hends).takes htail
    have hkey := (goes_fillMembers hp hname hgap (n + 1) given record _).takes hmember
    simpa [Pair.text] using hkey

/-- Every field of the form either reads a well-formed text or refuses it. -/
def Decisive (form : Form α) : Prop :=
  ∀ field ∈ form.fields, ∀ text, Formed text → Decides field.change text

theorem Decisive.decides {form : Form α} (h : form.Decisive) {key : String} {field : Field α}
    (hfield : form.field? key = some field) {text : List Char} (htext : Formed text) :
    Decides field.change text := h field (List.mem_of_find?_eq_some hfield) text htext

/-- A member behind which the form cannot be filled in is not read either, and neither is one that
    the form does not take. -/
theorem fails_fillMember {form : Form α} (hform : form.Decisive) {p : Pair} (hp : p.Sound)
    (hvalue : Formed p.value) {rest : List Char} (hends : Ends rest) (n : Nat) (given : List String)
    (record : α) (key : String)
    (hknown : ∀ field change, form.field? key = some field → key ∉ given →
      Reads field.change p.value change →
        Fails (form.fillMembers n (key :: given) (change record) true) rest)
    (hunknown : form.field? key = none → Fails (form.fillMembers n given record true) rest) :
    Fails (form.fillMember n given record key)
      (p.before ++ ':' :: (p.after ++ p.value) ++ rest) := by
  cases hfield : form.field? key with
  | none => exact (goes_fillMember_unknown hp hfield hvalue n record hends).fails (hunknown hfield)
  | some field =>
    by_cases hgiven : key ∈ given
    · exact fails_fillMember_given hfield hgiven n record _
    · obtain ⟨change, hreads⟩ | hrefuses := hform.decides hfield hvalue
      · exact (goes_fillMember_known hp hfield hgiven hreads n record hends).fails
          (hknown field change hfield hgiven hreads)
      · exact fails_fillMember_refused hp hfield hrefuses n record rest

/-- Members that do not fill in a form are not read. -/
theorem fails_fillMembers {form : Form α} (hform : form.Decisive) {pairs : List Pair}
    (hpairs : ∀ p ∈ pairs, p.Sound) (hvalues : ∀ p ∈ pairs, Formed p.value) {given : List String}
    (hnot : ∀ changes, ¬ form.Fills given pairs changes) {behind : Bool} {text : List Char}
    (htext : Listed behind (pairs.map Pair.text) text) (n : Nat) (record : α) (rest : List Char) :
    Fails (form.fillMembers n given record behind) (text ++ '\x7d' :: rest) := by
  induction pairs generalizing given behind text n record with
  | nil =>
    cases n with
    | zero => exact fails_failHere _ _
    | succ n =>
      obtain ⟨field, hfield⟩ := exists_missing?_of_not_complete fun h => hnot [] (.done h)
      refine (takes_hasMember_end htext.blank behind rest).bind_fails ?_
      simp only [Bool.false_eq_true, ↓reduceIte, hfield]
      exact fails_failLater _ _
  | cons p pairs ih =>
    cases n with
    | zero => exact fails_failHere _ _
    | succ n =>
      obtain ⟨gap, inside, rfl, hgap, hinside⟩ := htext.exists_next
      rw [List.forall_mem_cons] at hpairs hvalues
      have hends : Ends (inside ++ '\x7d' :: rest) := by
        simpa using hinside.ends_append (.inr rfl) rest
      by_cases hname : ∃ key, Spells key p.name
      · obtain ⟨key, hname⟩ := hname
        have hmember := fails_fillMember hform hpairs.1 hvalues.1 hends n given record key
          (fun field change hfield hgiven hreads => ih hpairs.2 hvalues.2
            (fun changes htail => hnot _ (.known hpairs.1 hname hfield hgiven hreads htail)) hinside
            n (change record))
          (fun hfield => ih hpairs.2 hvalues.2
            (fun changes htail => hnot _ (.unknown hpairs.1 hname hfield hvalues.1 htail)) hinside
            n record)
        have hkey := (goes_fillMembers hpairs.1 hname hgap n given record _).fails hmember
        simpa [Pair.text] using hkey
      · have hhas : Takes (hasMember behind) gap (p.text ++ (inside ++ '\x7d' :: rest)) true := by
          obtain ⟨more, hmore⟩ := hpairs.1.exists_text_append_eq (inside ++ '\x7d' :: rest)
          rw [hmore]
          exact takes_hasMember hgap more
        have hkey := fails_stringBody hpairs.1.isString (not_exists.mp hname)
          (p.before ++ ':' :: (p.after ++ p.value) ++ (inside ++ '\x7d' :: rest))
        rw [List.append_assoc, List.append_assoc]
        refine hhas.bind_fails ?_
        simpa [Pair.text] using hkey.bind _

/-- Members that fill in a form are read as what they make of the blank record, in whatever order
    they come. -/
theorem reads_of_fills {form : Form α} {pairs : List Pair} {changes : List (α → α)}
    (h : form.Fills [] pairs changes) {inside : List Char}
    (hinside : Enumerated (pairs.map Pair.text) inside) :
    Reads form.read ('\x7b' :: (inside ++ ['\x7d'])) (changed form.blank changes) := by
  refine ⟨⟨'\x7b', _, rfl, by decide, by decide⟩, fun gap rest hgap _ => ?_⟩
  have hlength := hinside.length_le
  rw [List.length_map] at hlength
  have htakes := takes_fillMembers h hinside.listed ((inside ++ '\x7d' :: rest).length + 1)
    (by simp only [List.length_append, List.length_cons]; omega) form.blank rest
  have hclosed := (takes_get (f := fun left =>
    form.fillMembers (left.length + 1) [] form.blank false) htakes).closedBy (takes_objectEnd rest)
  exact takes_expecting hgap (by decide) rfl (takes_advance_bind hclosed '\x7b')

/-- An object whose members do not fill in a form is refused. -/
theorem refuses_of_not_fills {form : Form α} (hform : form.Decisive) {pairs : List Pair}
    (hpairs : ∀ p ∈ pairs, p.Sound) (hvalues : ∀ p ∈ pairs, Formed p.value)
    (hnot : ∀ changes, ¬ form.Fills [] pairs changes) {inside : List Char}
    (hinside : Enumerated (pairs.map Pair.text) inside) :
    Refuses form.read ('\x7b' :: (inside ++ ['\x7d'])) := by
  intro gap rest hgap
  refine fails_expecting hgap (by decide) fun reader hreader => ?_
  cases hreader
  simp only [List.append_eq, List.append_assoc, List.singleton_append]
  refine (takes_advance '\x7b' _).bind_fails (Fails.closedBy ?_ _)
  exact fails_get (f := fun left => form.fillMembers (left.length + 1) [] form.blank false)
    (fails_fillMembers hform hpairs hvalues hnot hinside.listed _ _ rest)

/-! ### Records that are written as lists -/

/-- Elements fill in fields in their order. The fields that are left over may all be left out. -/
inductive FillsInOrder : List (Field α) → List (List Char) → List (α → α) → Prop
  | done : FillsInOrder [] [] []
  | left {field : Field α} {fields : List (Field α)} {changes : List (α → α)}
      (hfree : field.required = false) (tail : FillsInOrder fields [] changes) :
      FillsInOrder (field :: fields) [] changes
  | next {field : Field α} {fields : List (Field α)} {item : List Char} {items : List (List Char)}
      {change : α → α} {changes : List (α → α)} (hvalue : Reads field.change item change)
      (tail : FillsInOrder fields items changes) :
      FillsInOrder (field :: fields) (item :: items) (change :: changes)

section Elements

variable {form : Form α} {field : Field α} {fields : List (Field α)}

/-- An element that is read leaves the fields behind its own. -/
theorem goes_fillElements_next {item : List Char} {change : α → α}
    (hvalue : Reads field.change item change) {index : Nat} {gap : List Char}
    (hgap : Leads (0 < index) gap) (record : α) {rest : List Char} (hends : Ends rest) :
    Goes (form.fillElements index (field :: fields) record)
      (form.fillElements (index + 1) fields (change record)) (gap ++ item) rest :=
  ((takes_hasElement hgap (hvalue.begins.append rest)).goes _).trans
    ((hvalue.takes [] rest blank_nil hends).goes _)

/-- A field may be left out at the closing bracket. -/
theorem goes_fillElements_left (hfree : field.required = false) {gap : List Char} (hgap : Blank gap)
    (index : Nat) (record : α) (rest : List Char) :
    Goes (form.fillElements index (field :: fields) record) (form.fillElements index fields record)
      gap (']' :: rest) := by
  have h := (takes_hasElement_end hgap (0 < index) rest).goes fun has : Bool =>
    if has then do
      let change ← field.change
      fillElements form (index + 1) fields (change record)
    else if field.required then
      Reader.failLater (.wrongLength index form.title form.fields.length)
    else fillElements form index fields record
  simpa [fillElements, hfree] using h

theorem fails_fillElements_required (hrequired : field.required = true) {gap : List Char}
    (hgap : Blank gap) (index : Nat) (record : α) (rest : List Char) :
    Fails (form.fillElements index (field :: fields) record) (gap ++ ']' :: rest) := by
  refine (takes_hasElement_end hgap (0 < index) rest).bind_fails ?_
  simp only [Bool.false_eq_true, ↓reduceIte, hrequired]
  exact fails_failLater _ _

/-- Elements that fill in the fields are taken with the closing bracket. -/
theorem takes_fillElements {items : List (List Char)} {changes : List (α → α)}
    (h : FillsInOrder fields items changes) {index : Nat} {text : List Char}
    (htext : Listed (0 < index) items text) (record : α) (rest : List Char) :
    Takes (closedBy (form.fillElements index fields record) listEnd) (text ++ [']']) rest
      (changed record changes) := by
  induction h generalizing index text record with
  | done => exact (takes_pure record _).closedBy (takes_listEnd htext.blank rest)
  | left hfree tail ih =>
    exact ((goes_fillElements_left hfree htext.blank index record rest).closedBy listEnd).takes
      (ih (listed_nil blank_nil _) record)
  | @next field fields item items change changes hvalue tail ih =>
    obtain ⟨gap, inside, rfl, hgap, hinside⟩ := htext.exists_next
    have hlisted : Listed (0 < index + 1) items inside := by simpa using hinside
    have hrest := ih hlisted (change record)
    have h := ((goes_fillElements_next hvalue hgap record
      (hinside.ends_append (.inl rfl) rest)).closedBy listEnd).takes hrest
    simpa [changed] using h

/-- Elements that do not fill in the fields are not read. -/
theorem fails_fillElements (hfields : ∀ field ∈ fields, ∀ text, Formed text →
    Decides field.change text) {items : List (List Char)} (hitems : ∀ item ∈ items, Formed item)
    (hnot : ∀ changes, ¬ FillsInOrder fields items changes) {index : Nat} {text : List Char}
    (htext : Listed (0 < index) items text) (record : α) (rest : List Char) :
    Fails (closedBy (form.fillElements index fields record) listEnd) (text ++ ']' :: rest) := by
  induction fields generalizing items index text record with
  | nil =>
    cases items with
    | nil => exact absurd .done (hnot [])
    | cons item items =>
      obtain ⟨gap, inside, rfl, hgap, -⟩ := htext.exists_next
      rw [List.forall_mem_cons] at hitems
      have hend := fails_listEnd hgap (hitems.1.begins.append (inside ++ ']' :: rest))
      simpa [fillElements] using (takes_pure record _).closedBy_fails hend
  | cons field fields ih =>
    rw [List.forall_mem_cons] at hfields
    cases items with
    | nil =>
      cases hrequired : field.required with
      | true =>
        exact (fails_fillElements_required hrequired htext.blank index record rest).closedBy _
      | false =>
        have hnone : ∀ item ∈ ([] : List (List Char)), Formed item := nofun
        have hrest := ih hfields.2 hnone (fun changes h => hnot changes (.left hrequired h))
          (listed_nil blank_nil (0 < index)) record
        refine Goes.fails (Goes.closedBy ?_ listEnd) hrest
        exact goes_fillElements_left hrequired htext.blank index record rest
    | cons item items =>
      obtain ⟨gap, inside, rfl, hgap, hinside⟩ := htext.exists_next
      rw [List.forall_mem_cons] at hitems
      obtain ⟨change, hreads⟩ | hrefuses := hfields.1 item hitems.1
      · have hlisted : Listed (0 < index + 1) items inside := by simpa using hinside
        have hrest := ih hfields.2 hitems.2 (fun changes h => hnot _ (.next hreads h)) hlisted
          (change record)
        have hends : Ends (inside ++ ']' :: rest) := by
          simpa using hinside.ends_append (.inl rfl) rest
        have h := ((goes_fillElements_next hreads hgap record hends).closedBy listEnd).fails hrest
        simpa using h
      · have hhas := takes_hasElement hgap (hitems.1.begins.append (inside ++ ']' :: rest))
        rw [List.append_assoc, List.append_assoc]
        exact Fails.closedBy (hhas.bind_fails ((hrefuses [] _ blank_nil).bind _)) _

end Elements

/-- Elements that fill in a form in the order of its fields are read as what they make of the blank
    record. -/
theorem reads_of_fillsInOrder {form : Form α} {items : List (List Char)} {changes : List (α → α)}
    (h : FillsInOrder form.fields items changes) {inside : List Char}
    (hinside : Enumerated items inside) :
    Reads form.read ('[' :: (inside ++ [']'])) (changed form.blank changes) := by
  refine ⟨⟨'[', _, rfl, by decide, by decide⟩, fun gap rest hgap _ => ?_⟩
  have hlisted : Listed (0 < 0) items inside := hinside.listed
  have htakes : Takes (closedBy (form.fillElements 0 form.fields form.blank) listEnd)
      (inside ++ [']']) rest (changed form.blank changes) :=
    takes_fillElements h hlisted form.blank rest
  exact takes_expecting hgap (by decide) rfl (takes_advance_bind htakes '[')

/-- A list whose elements do not fill in a form in the order of its fields is refused. -/
theorem refuses_of_not_fillsInOrder {form : Form α} (hform : form.Decisive)
    {items : List (List Char)} (hitems : ∀ item ∈ items, Formed item)
    (hnot : ∀ changes, ¬ FillsInOrder form.fields items changes) {inside : List Char}
    (hinside : Enumerated items inside) : Refuses form.read ('[' :: (inside ++ [']'])) := by
  intro gap rest hgap
  refine fails_expecting hgap (by decide) fun reader hreader => ?_
  cases hreader
  simp only [List.append_eq, List.append_assoc, List.singleton_append]
  have hlisted : Listed (0 < 0) items inside := hinside.listed
  exact (takes_advance '[' _).bind_fails
    (fails_fillElements hform hitems hnot hlisted form.blank rest)

theorem refuses_read_of_isString {form : Form α} {text : List Char} (h : IsString text) :
    Refuses form.read text := refuses_of_isString h rfl

theorem refuses_read_of_isNumber {form : Form α} {text : List Char} (h : IsNumber text) :
    Refuses form.read text := by
  refine refuses_of_isNumber h fun c hc => ?_
  split
  · exact absurd (by decide) hc
  · exact absurd (by decide) hc
  · rfl

/-- A form either reads a well-formed text or refuses it. -/
theorem Decisive.decides_read {form : Form α} (hform : form.Decisive) {text : List Char}
    (h : Formed text) : Decides form.read text := by
  cases h with
  | @array items inside hitems hinside =>
    by_cases hread : ∃ changes, FillsInOrder form.fields items changes
    · obtain ⟨changes, hchanges⟩ := hread
      exact .inl ⟨_, reads_of_fillsInOrder hchanges hinside⟩
    · exact .inr (refuses_of_not_fillsInOrder hform hitems (not_exists.mp hread) hinside)
  | @object pairs inside hpairs hvalues hinside =>
    by_cases hread : ∃ changes, form.Fills [] pairs changes
    · obtain ⟨changes, hchanges⟩ := hread
      exact .inl ⟨_, reads_of_fills hchanges hinside⟩
    · exact .inr (refuses_of_not_fills hform hpairs hvalues (not_exists.mp hread) hinside)
  | string h => exact .inr (refuses_read_of_isString h)
  | number h => exact .inr (refuses_read_of_isNumber h)
  | _ => exact .inr (refuses_expecting (by decide) rfl)

/-! ### Whole texts -/

/-- A text that is read as a record, with nothing but separators around it, is the text of that
    record. -/
theorem ofText_between_of_reads {form : Form α} {before text after : List Char} {record : α}
    (hbefore : Blank before) (hafter : Blank after) (h : Reads form.read text record) :
    form.ofText (before ++ (text ++ after)) = .ok record := by
  have hread := h.takes before after hbefore hafter.ends ⟨1, 0⟩
  have hend : Takes settle after [] none := takes_settle hafter (by simp)
  have hsettle := hend (Place.over ⟨1, 0⟩ (before ++ text))
  rw [List.append_nil] at hsettle
  rw [List.append_assoc] at hread
  rw [ofText]
  show (Reader.on _ (.ofText (before ++ (text ++ after)))).1 = .ok record
  rw [Input.ofText, on_bind_of_ok hread, on_bind_of_ok hsettle]
  rfl

theorem ofText_of_reads {form : Form α} {text : List Char} {record : α}
    (h : Reads form.read text record) : form.ofText text = .ok record := by
  have hwhole := ofText_between_of_reads blank_nil blank_nil h
  rwa [List.nil_append, List.append_nil] at hwhole

/-- A text that is refused is not the text of a record, whatever follows it. -/
theorem exists_ofText_eq_error {form : Form α} {before text : List Char} (hbefore : Blank before)
    (h : Refuses form.read text) (after : List Char) :
    ∃ fault, form.ofText (before ++ (text ++ after)) = .error fault := by
  obtain ⟨fault, next, hread⟩ := h before after hbefore ⟨1, 0⟩
  refine ⟨fault, ?_⟩
  rw [ofText]
  show (Reader.on _ (.ofText (before ++ (text ++ after)))).1 = .error fault
  rw [Input.ofText, on_bind_of_error hread]

end Form

end SourceSurvey.Json
