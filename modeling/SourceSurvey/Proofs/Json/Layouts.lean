import Mathlib.Data.List.Nodup
import SourceSurvey.Proofs.Json.Filling

/-!
The texts that write a record, and the texts that are at fault. A record says one thing under each of
its keys: the members may come in any order and in any spelling, some may be left out, and members
of other keys may come between them. A text is at fault that lacks a key, has one twice, or has such
a text inside it.
-/

namespace SourceSurvey.Json

variable {α β : Type}

/-- What stands in one of two lists that belong together has something to belong to. -/
theorem exists_getElem?_of_forall₂ {r : α → β → Prop} {as : List α} {bs : List β}
    (h : List.Forall₂ r as bs) {index : Nat} {a : α} (ha : as[index]? = some a) :
    ∃ b, bs[index]? = some b ∧ r a b := by
  induction h generalizing index with
  | nil => simp at ha
  | cons hr _ ih =>
    cases index with
    | zero =>
      cases ha
      exact ⟨_, rfl, hr⟩
    | succ index => exact ih ha

/-- What is found for each entry is found for all of them. -/
theorem exists_forall₂_of_forall_mem {r : α → β → Prop} {bs : List β}
    (h : ∀ b ∈ bs, ∃ a, r a b) : ∃ as, List.Forall₂ r as bs := by
  induction bs with
  | nil => exact ⟨[], .nil⟩
  | cons b bs ih =>
    obtain ⟨⟨a, ha⟩, hrest⟩ := List.forall_mem_cons.mp h
    obtain ⟨as, has⟩ := ih hrest
    exact ⟨a :: as, .cons ha has⟩

/-! ### Texts that write something -/

/-- A text that writes a value, or null for none. -/
inductive WritesOption (writes : α → List Char → Prop) : Option α → List Char → Prop
  | null : WritesOption writes none ['n', 'u', 'l', 'l']
  | some {a : α} {text : List Char} (h : writes a text) : WritesOption writes (some a) text

/-- A text that writes a list of values. -/
inductive WritesList (writes : α → List Char → Prop) : List α → List Char → Prop
  | items {values : List α} {items : List (List Char)} {inside : List Char}
      (hitems : List.Forall₂ writes values items) (hinside : Enumerated items inside) :
      WritesList writes values ('[' :: (inside ++ [']']))

/-- What a record says under one of its keys: the texts that say it, whether it may be left out, and
    how another record takes it over. -/
structure Slot (α : Type) where
  key : String
  writes : List Char → Prop
  omissible : Prop
  copy : α → α

/-- Members that say some things of a record, in this order. Members of unknown keys may come
    between them; their values may be of any kind. -/
inductive Says (known : List String) : List (Slot α) → List Pair → Prop
  | done : Says known [] []
  | known {slot : Slot α} {p : Pair} {slots : List (Slot α)} {pairs : List Pair} (hp : p.Sound)
      (hname : Spells slot.key p.name) (hvalue : slot.writes p.value)
      (tail : Says known slots pairs) : Says known (slot :: slots) (p :: pairs)
  | unknown {key : String} {p : Pair} {slots : List (Slot α)} {pairs : List Pair} (hp : p.Sound)
      (hname : Spells key p.name) (hkey : key ∉ known) (hvalue : Formed p.value)
      (tail : Says known slots pairs) : Says known slots (p :: pairs)

/-- A text that writes a record: an object that says in any order what the record says under each of
    its keys, but for some that may be left out. -/
inductive WritesRecord (slots : List (Slot α)) : List Char → Prop
  | object {said omitted : List (Slot α)} {pairs : List Pair} {inside : List Char}
      (hperm : (omitted ++ said).Perm slots) (homitted : ∀ slot ∈ omitted, slot.omissible)
      (hmembers : Says (slots.map Slot.key) said pairs)
      (hinside : Enumerated (pairs.map Pair.text) inside) :
      WritesRecord slots ('\x7b' :: (inside ++ ['\x7d']))

/-- A list of values has a text if each of them has one. -/
theorem exists_writesList {writes : α → List Char → Prop} {values : List α}
    (h : ∀ a ∈ values, ∃ text, writes a text) : ∃ text, WritesList writes values text := by
  obtain ⟨items, hitems⟩ := exists_forall₂_of_forall_mem (r := fun text a => writes a text) h
  obtain ⟨inside, hinside⟩ := exists_enumerated items
  exact ⟨_, .items hitems.flip hinside⟩

theorem Slot.exists_says {slots : List (Slot α)} (known : List String)
    (h : ∀ slot ∈ slots, slot.omissible ∨ ∃ text, slot.writes text) :
    ∃ omitted said pairs, (omitted ++ said).Perm slots ∧ (∀ slot ∈ omitted, slot.omissible) ∧
      Says known said pairs := by
  induction slots with
  | nil => exact ⟨[], [], [], .nil, nofun, .done⟩
  | cons slot slots ih =>
    obtain ⟨hslot, hrest⟩ := List.forall_mem_cons.mp h
    obtain ⟨omitted, said, pairs, hperm, homitted, hsays⟩ := ih hrest
    obtain homissible | ⟨text, htext⟩ := hslot
    · exact ⟨slot :: omitted, said, pairs, hperm.cons slot,
        List.forall_mem_cons.mpr ⟨homissible, homitted⟩, hsays⟩
    · have hname := spells_stringText slot.key
      exact ⟨omitted, slot :: said, ⟨stringText slot.key.toList, [], [], text⟩ :: pairs,
        List.perm_middle.trans (hperm.cons slot), homitted,
        .known ⟨hname.isString, rfl, rfl⟩ hname htext hsays⟩

/-- A record has a text if there is one for everything that may not be left out. -/
theorem exists_writesRecord {slots : List (Slot α)}
    (h : ∀ slot ∈ slots, slot.omissible ∨ ∃ text, slot.writes text) :
    ∃ text, WritesRecord slots text := by
  obtain ⟨omitted, said, pairs, hperm, homitted, hsays⟩ :=
    Slot.exists_says (slots.map Slot.key) h
  obtain ⟨inside, hinside⟩ := exists_enumerated (pairs.map Pair.text)
  exact ⟨_, .object hperm homitted hsays hinside⟩

/-! ### Texts at fault -/

/-- A text is an object with some members, each of them well formed. -/
def IsObject (pairs : List Pair) (text : List Char) : Prop :=
  (∀ p ∈ pairs, p.Sound) ∧ (∀ p ∈ pairs, Formed p.value) ∧
    ∃ inside, Enumerated (pairs.map Pair.text) inside ∧ text = '\x7b' :: (inside ++ ['\x7d'])

/-- A text is a list with some elements, each of them well formed. -/
def IsList (items : List (List Char)) (text : List Char) : Prop :=
  (∀ item ∈ items, Formed item) ∧ ∃ inside, Enumerated items inside ∧ text = '[' :: (inside ++ [']'])

theorem IsObject.formed {pairs : List Pair} {text : List Char} (h : IsObject pairs text) :
    Formed text := by
  obtain ⟨hpairs, hvalues, inside, hinside, rfl⟩ := h
  exact .object hpairs hvalues hinside

theorem IsList.formed {items : List (List Char)} {text : List Char} (h : IsList items text) :
    Formed text := by
  obtain ⟨hitems, inside, hinside, rfl⟩ := h
  exact .array hitems hinside

/-- A list with an element at fault. -/
def FaultyList (faulty : List Char → Prop) (text : List Char) : Prop :=
  ∃ items, IsList items text ∧ ∃ item ∈ items, faulty item

/-- What is asked under one of the keys of a record: whether something has to be given, and which
    values are at fault. -/
structure Demand where
  key : String
  required : Bool
  faulty : List Char → Prop

/-- A demand on a value of which nothing inside can be at fault. -/
def Demand.plain (key : String) (required : Bool) : Demand := ⟨key, required, fun _ => False⟩

/-- A demand on a list, with an element at fault. -/
def Demand.list (key : String) (required : Bool) (faulty : List Char → Prop) : Demand :=
  ⟨key, required, FaultyList faulty⟩

/-- A text that is at fault where a record is wanted: something that has to be given is missing,
    something is given twice, or what is given is at fault itself. A record that is written as a list
    gives in their order what the demands are about. -/
inductive Faulty (demands : List Demand) (text : List Char) : Prop
  | missing {pairs : List Pair} (htext : IsObject pairs text) (demand : Demand)
      (hdemand : demand ∈ demands) (hrequired : demand.required = true)
      (hmissing : ∀ p ∈ pairs, ¬ Spells demand.key p.name)
  | repeated {pairs : List Pair} (htext : IsObject pairs text) (demand : Demand)
      (hdemand : demand ∈ demands) (p q : Pair) (htwice : [p, q].Sublist pairs)
      (hp : Spells demand.key p.name) (hq : Spells demand.key q.name)
  | value {pairs : List Pair} (htext : IsObject pairs text) (demand : Demand)
      (hdemand : demand ∈ demands) (p : Pair) (hp : p ∈ pairs) (hname : Spells demand.key p.name)
      (hvalue : demand.faulty p.value)
  | short {items : List (List Char)} (htext : IsList items text) (index : Nat) (demand : Demand)
      (hdemand : demands[index]? = some demand) (hrequired : demand.required = true)
      (hshort : items.length ≤ index)
  | element {items : List (List Char)} (htext : IsList items text) (index : Nat) (demand : Demand)
      (hdemand : demands[index]? = some demand) (item : List Char) (hitem : items[index]? = some item)
      (hvalue : demand.faulty item)

/-- A text that is at fault where a record is one of the values of another one: at fault itself, or
    neither an object nor a list, or a list of more elements than are asked for. -/
inductive FaultyRecord (demands : List Demand) (text : List Char) : Prop
  | inside (h : Faulty demands text)
  | other (htext : Formed text) (hobject : ∀ pairs, ¬ IsObject pairs text)
      (hlist : ∀ items, ¬ IsList items text)
  | long {items : List (List Char)} (htext : IsList items text)
      (hlong : demands.length < items.length)

/-- A demand on a value of some type: what is of another type is at fault. -/
def Demand.typed (key : String) (writes : α → List Char → Prop) : Demand :=
  ⟨key, false, fun text => Formed text ∧ ∀ a, ¬ writes a text⟩

/-- A demand on a record. -/
def Demand.record (key : String) (demands : List Demand) : Demand :=
  ⟨key, false, FaultyRecord demands⟩

namespace Reader

theorem reads_list_of_writes {writes : α → List Char → Prop} {element : Reader α}
    {values : List α} {text : List Char} (h : WritesList writes values text)
    (hreads : ∀ a text, writes a text → Reads element text a) :
    Reads (list element) text values := by
  cases h with
  | items hitems hinside =>
    refine reads_list (List.Forall₂.flip (hitems.imp fun a item hwrites => ?_)) hinside
    exact hreads a item hwrites

theorem reads_optional_text {o : Option String} {text : List Char} (h : WritesOption Spells o text) :
    Reads (optional Reader.text) text o := by
  cases h with
  | null => exact reads_optional_null Reader.text
  | some h =>
    have hreads := reads_text_of_spells h
    obtain ⟨glyphs, rfl, -⟩ := h
    exact reads_optional_some hreads (by decide) (by decide)

end Reader

namespace Form

open Reader

/-- The field reads everything that the slot writes, as what the slot says. -/
structure Matches (slot : Slot α) (field : Field α) : Prop where
  key : slot.key = field.key
  required : field.required = true → ¬ slot.omissible
  reads : ∀ text, slot.writes text → Reads field.change text slot.copy

/-- The slots say everything of a record, each for a field of its own: what may be left out is what
    the blank record says, and no order matters. -/
structure Describes (form : Form α) (slots : List (Slot α)) (record : α) : Prop where
  nodup : (form.fields.map Field.key).Nodup
  fields : List.Forall₂ Matches slots form.fields
  omissible : ∀ slot ∈ slots, slot.omissible → slot.copy form.blank = form.blank
  commutes : ∀ slot ∈ slots, ∀ slot' ∈ slots, ∀ r, slot'.copy (slot.copy r) = slot.copy (slot'.copy r)
  whole : changed form.blank (slots.map Slot.copy) = record

theorem field?_eq_none {form : Form α} {key : String} (h : key ∉ form.fields.map Field.key) :
    form.field? key = none := by
  simp only [field?, List.find?_eq_none, beq_iff_eq]
  exact fun field hfield heq => h (heq ▸ List.mem_map_of_mem hfield)

/-- Where no two fields have the same key, every field is found by its own. -/
theorem field?_of_mem {form : Form α} (hnodup : (form.fields.map Field.key).Nodup) {field : Field α}
    (hfield : field ∈ form.fields) : form.field? field.key = some field := by
  obtain ⟨found, hfound⟩ : ∃ found, form.field? field.key = some found := by
    rw [← Option.isSome_iff_exists, field?, List.find?_isSome]
    exact ⟨field, hfield, beq_self_eq_true field.key⟩
  have hmem : found ∈ form.fields := List.mem_of_find?_eq_some hfound
  have hkey : found.key = field.key := by simpa using List.find?_some hfound
  rw [hfound, List.inj_on_of_nodup_map hnodup hmem hfield hkey]

/-- Members that say different things of a record fill in its form, if none is missing in the end. -/
theorem fills_of_says {form : Form α} {said : List (Slot α)} {pairs : List Pair}
    (h : Says (form.fields.map Field.key) said pairs)
    (hreads : ∀ slot ∈ said, ∃ field, form.field? slot.key = some field ∧ Matches slot field)
    {given : List String} (hnodup : (said.map Slot.key ++ given).Nodup)
    (hcomplete : form.Complete (said.map Slot.key ++ given)) :
    form.Fills given pairs (said.map Slot.copy) := by
  induction h generalizing given with
  | done => exact .done hcomplete
  | @known slot p slots pairs hp hname hvalue tail ih =>
    rw [List.forall_mem_cons] at hreads
    obtain ⟨field, hfield, hmatches⟩ := hreads.1
    have hperm : (slot.key :: (slots.map Slot.key ++ given)).Perm
        (slots.map Slot.key ++ slot.key :: given) := List.perm_middle.symm
    have hgiven : slot.key ∉ given := by
      simp only [List.map_cons, List.cons_append, List.nodup_cons, List.mem_append, not_or] at hnodup
      exact hnodup.1.2
    exact .known hp hname hfield hgiven (hmatches.reads p.value hvalue) (ih hreads.2
      (hperm.nodup_iff.mp hnodup)
      fun field hfield hrequired => hperm.mem_iff.mp (hcomplete field hfield hrequired))
  | unknown hp hname hkey hvalue tail ih =>
    exact .unknown hp hname (field?_eq_none hkey) hvalue (ih hreads hnodup hcomplete)

/-- What is left out of a record makes no difference, and neither does the order of the rest. -/
theorem Describes.changed_eq {form : Form α} {slots said omitted : List (Slot α)} {record : α}
    (h : form.Describes slots record) (hperm : (omitted ++ said).Perm slots)
    (homitted : ∀ slot ∈ omitted, slot.omissible) :
    changed form.blank (said.map Slot.copy) = record := by
  have hblank (omitted : List (Slot α))
      (homitted : ∀ slot ∈ omitted, slot.copy form.blank = form.blank) :
      changed form.blank (omitted.map Slot.copy) = form.blank := by
    induction omitted with
    | nil => rfl
    | cons slot omitted ih =>
      rw [List.forall_mem_cons] at homitted
      rw [List.map_cons, changed, List.foldl_cons, homitted.1]
      exact ih homitted.2
  have hmem : ∀ slot ∈ omitted, slot ∈ slots := fun slot hslot =>
    hperm.mem_iff.mp (List.mem_append_left _ hslot)
  have hsaid : changed form.blank (said.map Slot.copy) =
      changed form.blank ((omitted ++ said).map Slot.copy) := by
    rw [List.map_append, changed, changed, List.foldl_append]
    exact congrArg (fun r => changed r _) (hblank omitted fun slot hslot =>
      h.omissible slot (hmem slot hslot) (homitted slot hslot)).symm
  rw [hsaid, ← h.whole, changed, changed, List.foldl_map, List.foldl_map]
  refine hperm.foldl_eq' (fun slot hslot slot' hslot' r => ?_) form.blank
  exact h.commutes slot (hperm.mem_iff.mp hslot) slot' (hperm.mem_iff.mp hslot') r

theorem map_key_of_matches {slots : List (Slot α)} {fields : List (Field α)}
    (h : List.Forall₂ Matches slots fields) : slots.map Slot.key = fields.map Field.key := by
  induction h with
  | nil => rfl
  | cons hmatches _ ih => rw [List.map_cons, List.map_cons, hmatches.key, ih]

theorem Describes.exists_field {form : Form α} {slots : List (Slot α)} {record : α}
    (h : form.Describes slots record) {slot : Slot α} (hslot : slot ∈ slots) :
    ∃ field, form.field? slot.key = some field ∧ Matches slot field := by
  obtain ⟨index, hindex⟩ := List.mem_iff_getElem?.mp hslot
  obtain ⟨field, hfield, hmatches⟩ := exists_getElem?_of_forall₂ h.fields hindex
  exact ⟨field, hmatches.key ▸ field?_of_mem h.nodup (List.mem_of_getElem? hfield), hmatches⟩

/-- Every text that writes a record is read as this record. -/
theorem Describes.reads_of_writes {form : Form α} {slots : List (Slot α)} {record : α}
    (h : form.Describes slots record) {text : List Char} (htext : WritesRecord slots text) :
    Reads form.read text record := by
  cases htext with
  | @object said omitted pairs inside hperm homitted hmembers hinside =>
    have hkeys := map_key_of_matches h.fields
    have hnodup : (omitted.map Slot.key ++ said.map Slot.key).Nodup := by
      rw [← List.map_append, (hperm.map Slot.key).nodup_iff, hkeys]
      exact h.nodup
    have hcomplete : form.Complete (said.map Slot.key) := by
      intro field hfield hrequired
      have hkey : field.key ∈ (omitted ++ said).map Slot.key := by
        rw [(hperm.map Slot.key).mem_iff, hkeys]
        exact List.mem_map_of_mem hfield
      rw [List.map_append, List.mem_append] at hkey
      -- what is left out belongs to a field that need not be given
      refine hkey.resolve_left fun hkey => ?_
      obtain ⟨slot, hslot, hslotKey⟩ := List.mem_map.mp hkey
      obtain ⟨found, hfound, hmatches⟩ :=
        h.exists_field (hperm.mem_iff.mp (List.mem_append_left _ hslot))
      rw [hslotKey, field?_of_mem h.nodup hfield] at hfound
      cases hfound
      exact hmatches.required hrequired (homitted slot hslot)
    rw [hkeys] at hmembers
    have hfills : form.Fills [] pairs (said.map Slot.copy) := fills_of_says hmembers
      (fun slot hslot => h.exists_field (hperm.mem_iff.mp (List.mem_append_right _ hslot)))
      (by simpa using (List.nodup_append.mp hnodup).2.1) (by simpa using hcomplete)
    have hread := reads_of_fills hfills hinside
    rwa [h.changed_eq hperm homitted] at hread

/-- The field is the one that a demand is about: what is at fault for the demand is refused by the
    field. -/
structure Meets (demand : Demand) (field : Field α) : Prop where
  key : demand.key = field.key
  required : demand.required = field.required
  refuses : ∀ text, demand.faulty text → Refuses field.change text

/-- Whatever members fill in a form, those of a field are read by this field, there is no more than
    one of them, and none when the field has been given before. -/
theorem Fills.of_field {form : Form α} {field : Field α} {key : String}
    (hfield : form.field? key = some field) {given : List String} {pairs : List Pair}
    {changes : List (α → α)} (h : form.Fills given pairs changes) :
    (∀ p ∈ pairs, Spells key p.name → (∃ change, Reads field.change p.value change) ∧ key ∉ given) ∧
      pairs.Pairwise fun p q => ¬ (Spells key p.name ∧ Spells key q.name) := by
  induction h with
  | done => exact ⟨nofun, .nil⟩
  | @known given p pairs key' field' change changes hp hname hfield' hgiven hvalue tail ih =>
    constructor
    · rw [List.forall_mem_cons]
      refine ⟨fun hspells => ?_, fun q hq hspells => ?_⟩
      · cases hspells.unique hname
        cases hfield.symm.trans hfield'
        exact ⟨⟨change, hvalue⟩, hgiven⟩
      · obtain ⟨hread, hnot⟩ := ih.1 q hq hspells
        exact ⟨hread, fun hmem => hnot (List.mem_cons_of_mem _ hmem)⟩
    · refine List.pairwise_cons.mpr ⟨fun q hq hboth => ?_, ih.2⟩
      cases hboth.1.unique hname
      exact (ih.1 q hq hboth.2).2 List.mem_cons_self
  | @unknown given p pairs key' changes hp hname hfield' hvalue tail ih =>
    have hother (hspells : Spells key p.name) : False := by
      cases hspells.unique hname
      cases hfield.symm.trans hfield'
    exact ⟨List.forall_mem_cons.mpr ⟨fun hspells => (hother hspells).elim, ih.1⟩,
      List.pairwise_cons.mpr ⟨fun q hq hboth => hother hboth.1, ih.2⟩⟩

/-- When a form is filled in, each field that has to be given has been given. -/
theorem Fills.complete {form : Form α} {given : List String} {pairs : List Pair}
    {changes : List (α → α)} (h : form.Fills given pairs changes) {field : Field α}
    (hfield : field ∈ form.fields) (hrequired : field.required = true) :
    field.key ∈ given ∨ ∃ p ∈ pairs, Spells field.key p.name := by
  induction h with
  | done hcomplete => exact .inl (hcomplete field hfield hrequired)
  | @known given p pairs key _ _ _ hp hname _ _ _ tail ih =>
    obtain hgiven | ⟨q, hq, hspells⟩ := ih
    · obtain heq | hgiven := List.mem_cons.mp hgiven
      · exact .inr ⟨p, List.mem_cons_self, heq ▸ hname⟩
      · exact .inl hgiven
    · exact .inr ⟨q, List.mem_cons_of_mem _ hq, hspells⟩
  | unknown hp hname _ _ tail ih =>
    obtain hgiven | ⟨q, hq, hspells⟩ := ih
    · exact .inl hgiven
    · exact .inr ⟨q, List.mem_cons_of_mem _ hq, hspells⟩

/-- Elements that fill in fields reach all that have to be given, and each is read by its own. -/
theorem FillsInOrder.of_field {fields : List (Field α)} {items : List (List Char)}
    {changes : List (α → α)} (h : FillsInOrder fields items changes) {index : Nat} {field : Field α}
    (hfield : fields[index]? = some field) :
    (field.required = true → index < items.length) ∧
      ∀ item, items[index]? = some item → ∃ change, Reads field.change item change := by
  induction h generalizing index with
  | done => simp at hfield
  | @left field' fields changes hfree tail ih =>
    refine ⟨fun hrequired => ?_, nofun⟩
    cases index with
    | zero =>
      cases hfield
      cases hfree.symm.trans hrequired
    | succ index => exact absurd ((ih hfield).1 hrequired) (Nat.not_lt_zero _)
  | @next field' fields item items change changes hvalue tail ih =>
    cases index with
    | zero =>
      cases hfield
      exact ⟨fun _ => Nat.succ_pos _, fun item hitem => by cases hitem; exact ⟨change, hvalue⟩⟩
    | succ index =>
      obtain ⟨hreached, hread⟩ := ih hfield
      exact ⟨fun hrequired => Nat.succ_lt_succ (hreached hrequired), hread⟩

/-- A text at fault is refused. -/
theorem Decisive.refuses_of_faulty {form : Form α} (hform : form.Decisive)
    (hnodup : (form.fields.map Field.key).Nodup) {demands : List Demand}
    (hdemands : List.Forall₂ Meets demands form.fields) {text : List Char}
    (h : Faulty demands text) : Refuses form.read text := by
  have hfield {demand : Demand} (hdemand : demand ∈ demands) :
      ∃ field ∈ form.fields, form.field? demand.key = some field ∧ Meets demand field := by
    obtain ⟨index, hindex⟩ := List.mem_iff_getElem?.mp hdemand
    obtain ⟨field, hfield, hmeets⟩ := exists_getElem?_of_forall₂ hdemands hindex
    have hmem := List.mem_of_getElem? hfield
    exact ⟨field, hmem, hmeets.key ▸ field?_of_mem hnodup hmem, hmeets⟩
  have hobject {pairs : List Pair} (htext : IsObject pairs text)
      (hnot : ∀ changes, ¬ form.Fills [] pairs changes) : Refuses form.read text := by
    obtain ⟨hpairs, hvalues, inside, hinside, rfl⟩ := htext
    exact refuses_of_not_fills hform hpairs hvalues hnot hinside
  have hlist {items : List (List Char)} (htext : IsList items text)
      (hnot : ∀ changes, ¬ FillsInOrder form.fields items changes) : Refuses form.read text := by
    obtain ⟨hitems, inside, hinside, rfl⟩ := htext
    exact refuses_of_not_fillsInOrder hform hitems hnot hinside
  cases h with
  | missing htext demand hdemand hrequired hmissing =>
    obtain ⟨field, hmem, -, hmeets⟩ := hfield hdemand
    refine hobject htext fun changes hfills => ?_
    obtain hgiven | ⟨p, hp, hspells⟩ := hfills.complete hmem (hmeets.required ▸ hrequired)
    · cases hgiven
    · exact hmissing p hp (hmeets.key ▸ hspells)
  | repeated htext demand hdemand p q htwice hp hq =>
    obtain ⟨field, -, hfound, -⟩ := hfield hdemand
    refine hobject htext fun changes hfills => ?_
    exact List.pairwise_iff_forall_sublist.mp (hfills.of_field hfound).2 htwice ⟨hp, hq⟩
  | value htext demand hdemand p hp hname hvalue =>
    obtain ⟨field, -, hfound, hmeets⟩ := hfield hdemand
    refine hobject htext fun changes hfills => ?_
    obtain ⟨⟨change, hreads⟩, -⟩ := (hfills.of_field hfound).1 p hp hname
    exact hreads.not_refuses (hmeets.refuses p.value hvalue)
  | short htext index demand hdemand hrequired hshort =>
    obtain ⟨field, hindex, hmeets⟩ := exists_getElem?_of_forall₂ hdemands hdemand
    refine hlist htext fun changes hfills => ?_
    exact absurd ((hfills.of_field hindex).1 (hmeets.required ▸ hrequired)) (Nat.not_lt.mpr hshort)
  | element htext index demand hdemand item hitem hvalue =>
    obtain ⟨field, hindex, hmeets⟩ := exists_getElem?_of_forall₂ hdemands hdemand
    refine hlist htext fun changes hfills => ?_
    obtain ⟨change, hreads⟩ := (hfills.of_field hindex).2 item hitem
    exact hreads.not_refuses (hmeets.refuses item hvalue)

/-- Elements that fill in fields are no more than the fields. -/
theorem FillsInOrder.length_le {fields : List (Field α)} {items : List (List Char)}
    {changes : List (α → α)} (h : FillsInOrder fields items changes) :
    items.length ≤ fields.length := by
  induction h with
  | done => exact Nat.le_refl 0
  | left => exact Nat.zero_le _
  | next _ _ ih => exact Nat.succ_le_succ ih

/-- What is at fault as a record inside another one is refused. -/
theorem Decisive.refuses_of_faultyRecord {form : Form α} (hform : form.Decisive)
    (hnodup : (form.fields.map Field.key).Nodup) {demands : List Demand}
    (hdemands : List.Forall₂ Meets demands form.fields) {text : List Char}
    (h : FaultyRecord demands text) : Refuses form.read text := by
  cases h with
  | inside h => exact hform.refuses_of_faulty hnodup hdemands h
  | other htext hobject hlist =>
    cases htext with
    | array hitems hinside => exact absurd ⟨hitems, _, hinside, rfl⟩ (hlist _)
    | object hpairs hvalues hinside => exact absurd ⟨hpairs, hvalues, _, hinside, rfl⟩ (hobject _)
    | string h => exact refuses_read_of_isString h
    | number h => exact refuses_read_of_isNumber h
    | _ => exact refuses_expecting (by decide) rfl
  | @long items htext hlong =>
    obtain ⟨hitems, inside, hinside, rfl⟩ := htext
    refine refuses_of_not_fillsInOrder hform hitems (fun changes hfills => ?_) hinside
    exact absurd hfills.length_le (Nat.not_le.mpr (hdemands.length_eq ▸ hlong))

end Form

/-- A list with an element that is refused is refused. -/
theorem Reader.refuses_of_faultyList {element : Reader α} {faulty : List Char → Prop}
    (helement : ∀ text, Formed text → Decides element text)
    (hfaulty : ∀ text, faulty text → Refuses element text) {text : List Char}
    (h : FaultyList faulty text) : Refuses (list element) text := by
  obtain ⟨items, ⟨hitems, inside, hinside, rfl⟩, item, hitem, hfault⟩ := h
  refine refuses_list hinside (fun item hitem => (hitems item hitem).begins)
    (fun item hitem => helement item (hitems item hitem)) fun values hread => ?_
  obtain ⟨index, hindex⟩ := List.mem_iff_getElem?.mp hitem
  obtain ⟨value, -, hreads⟩ := exists_getElem?_of_forall₂ hread hindex
  exact hreads.not_refuses (hfaulty item hfault)

end SourceSurvey.Json
