import SourceSurvey.Proofs.Json.Filling
import SourceSurvey.Record.Json

/-!
What a survey is written as is read as the same survey. The indented layout is one of those that
lists and records are read in, so it is enough to say which members each record is written with.
-/

namespace SourceSurvey

namespace Json

open Reader

theorem blank_newLine (width level : Nat) : Blank (newLine width level) := by
  simp [Blank, newLine, isSpace]

/-- The text of a member that begins on a line of the given level. -/
def memberText (width level : Nat) (member : List Char × Value) : List Char :=
  stringText member.1 ++ [':', ' '] ++ member.2.text width level

theorem continued_elementsText (width level : Nat) (elements : List Value) :
    Continued (elements.map (Value.text width (level + 1)))
      (elementsText width (level + 1) elements ++ newLine width level) := by
  induction elements with
  | nil =>
    rw [elementsText, List.nil_append]
    exact .done (blank_newLine width level)
  | cons element elements ih =>
    have h := Continued.more (element.text width (level + 1)) blank_nil
      (blank_newLine width (level + 1)) ih
    simpa [elementsText] using h

theorem continued_membersText (width level : Nat) (members : List (List Char × Value)) :
    Continued (members.map (memberText width (level + 1)))
      (membersText width (level + 1) members ++ newLine width level) := by
  induction members with
  | nil =>
    rw [membersText, List.nil_append]
    exact .done (blank_newLine width level)
  | cons member members ih =>
    have h := Continued.more (memberText width (level + 1) member) blank_nil
      (blank_newLine width (level + 1)) ih
    simpa [membersText, memberText] using h

/-- The indented text of a list enumerates the texts of its elements. -/
theorem exists_enumerated_array (width level : Nat) (elements : List Value) :
    ∃ text, (Value.array elements).text width level = '[' :: (text ++ [']']) ∧
      Enumerated (elements.map (Value.text width (level + 1))) text := by
  cases elements with
  | nil =>
    refine ⟨[], ?_, .empty blank_nil⟩
    rw [Value.text, List.nil_append]
  | cons element elements =>
    refine ⟨_, ?_, .items (blank_newLine width (level + 1))
      (continued_elementsText width level elements)⟩
    simp [Value.text]

/-- The indented text of an object enumerates the texts of its members. -/
theorem exists_enumerated_object (width level : Nat) (members : List (List Char × Value)) :
    ∃ text, (Value.object members).text width level = '\x7b' :: (text ++ ['\x7d']) ∧
      Enumerated (members.map (memberText width (level + 1))) text := by
  cases members with
  | nil =>
    refine ⟨[], ?_, .empty blank_nil⟩
    rw [Value.text, List.nil_append]
  | cons member members =>
    refine ⟨_, ?_, .items (blank_newLine width (level + 1))
      (continued_membersText width level members)⟩
    simp [Value.text, memberText]

/-- The value is written as a text that the reader reads, at every width and level. -/
def Value.ReadAs {α : Type} (value : Value) (reader : Reader α) (a : α) : Prop :=
  ∀ width level, Reads reader (value.text width level) a

theorem Value.ReadAs.map {α β : Type} {value : Value} {reader : Reader α} {a : α}
    (h : value.ReadAs reader a) (f : α → β) : value.ReadAs (f <$> reader) (f a) :=
  fun width level => (h width level).map f

theorem readAs_text (s : String) : (Value.string s.toList).ReadAs text s := fun width level => by
  rw [Value.text]
  exact reads_text s

/-- Nothing is read from null, and all else as the value itself. -/
theorem readAs_ofOption (o : Option String) : (Value.ofOption o).ReadAs (optional text) o := by
  intro width level
  cases o with
  | none =>
    rw [Value.ofOption, Value.text]
    exact reads_optional_null text
  | some s =>
    rw [Value.ofOption, Value.text]
    exact reads_optional_some (reads_text s) (by decide) (by decide)

/-- A list of values is read as the list of what each of them is read as. -/
theorem readAs_list {α : Type} {reader : Reader α} {valueOf : α → Value}
    (h : ∀ a, (valueOf a).ReadAs reader a) (list : List α) :
    (Value.array (list.map valueOf)).ReadAs (Reader.list reader) list := by
  intro width level
  obtain ⟨text, htext, henum⟩ := exists_enumerated_array width level (list.map valueOf)
  rw [htext]
  refine reads_list ?_ henum
  rw [List.map_map, List.forall₂_map_left_iff, List.forall₂_same]
  exact fun a _ => h a width (level + 1)

theorem readAs_strings (texts : List String) :
    (Value.ofStrings texts).ReadAs (Reader.list text) texts :=
  readAs_list readAs_text texts

/-- A member as data, and what its value does to a record. -/
structure Entry (α : Type) where
  key : String
  value : Value
  change : α → α

/-- The value of the entry is read by the field of its key. -/
def Entry.Fits {α : Type} (form : Form α) (entry : Entry α) : Prop :=
  ∃ field, form.fields.find? (fun field => field.key == entry.key) = some field ∧
    entry.value.ReadAs field.change entry.change

/-- The member that an entry is written as on a line of the given level. -/
def Entry.pair {α : Type} (entry : Entry α) (width level : Nat) : Pair :=
  ⟨stringText entry.key.toList, [], [' '], entry.value.text width level⟩

theorem Entry.sound_pair {α : Type} (entry : Entry α) (width level : Nat) :
    (entry.pair width level).Sound :=
  ⟨(spells_stringText entry.key).isString, blank_nil, rfl⟩

/-- Entries that fit the form and have different keys fill it in. -/
theorem fills_of_entries {α : Type} {form : Form α} (width level : Nat) {entries : List (Entry α)}
    (hfits : ∀ entry ∈ entries, entry.Fits form) {given : List String}
    (hnodup : (entries.map Entry.key ++ given).Nodup)
    (hcomplete : form.Complete (entries.map Entry.key ++ given)) :
    form.Fills given (entries.map fun entry => entry.pair width level)
      (entries.map Entry.change) := by
  induction entries generalizing given with
  | nil => exact .done hcomplete
  | cons entry entries ih =>
    rw [List.forall_mem_cons] at hfits
    have hperm : (entry.key :: (entries.map Entry.key ++ given)).Perm
        (entries.map Entry.key ++ entry.key :: given) := List.perm_middle.symm
    have hgiven : entry.key ∉ given := by
      simp only [List.map_cons, List.cons_append, List.nodup_cons, List.mem_append, not_or] at hnodup
      exact hnodup.1.2
    obtain ⟨field, hfield, hread⟩ := hfits.1
    exact .known (entry.sound_pair width level) (spells_stringText entry.key) hfield hgiven
      (hread width level) (ih hfits.2 (hperm.nodup_iff.mp hnodup)
        fun field hfield hrequired => hperm.mem_iff.mp (hcomplete field hfield hrequired))

/-- An object of entries that each fit the form is read as what they make of the blank record. -/
theorem readAs_object {α : Type} (form : Form α) (entries : List (Entry α))
    (hfits : ∀ entry ∈ entries, entry.Fits form) (hnodup : (entries.map Entry.key).Nodup)
    (hcomplete : form.Complete (entries.map Entry.key)) :
    (Value.object (entries.map fun entry => (entry.key.toList, entry.value))).ReadAs form.read
      (entries.foldl (fun record entry => entry.change record) form.blank) := by
  intro width level
  obtain ⟨text, htext, henum⟩ := exists_enumerated_object width level
    (entries.map fun entry => (entry.key.toList, entry.value))
  have hfills : form.Fills [] (entries.map fun entry => entry.pair width (level + 1))
      (entries.map Entry.change) :=
    fills_of_entries width (level + 1) hfits (by simpa using hnodup) (by simpa using hcomplete)
  have hinside : Enumerated ((entries.map fun entry => entry.pair width (level + 1)).map Pair.text)
      text := by
    have hitem : memberText width (level + 1) ∘
        (fun entry : Entry α => (entry.key.toList, entry.value)) =
        Pair.text ∘ fun entry => entry.pair width (level + 1) := by
      funext entry
      simp [memberText, Pair.text, Entry.pair]
    rwa [List.map_map, hitem, ← List.map_map] at henum
  have h := Form.reads_of_fills hfills hinside
  rw [htext]
  simpa [Form.changed, List.foldl_map] using h

end Json

open Json

/-- The entries of a function. -/
def FunctionRecord.entries (r : FunctionRecord) : List (Entry FunctionRecord) := [
  ⟨"name", .string r.name.toList, fun s => { s with name := r.name }⟩,
  ⟨"parameters", .ofStrings r.parameters, fun s => { s with parameters := r.parameters }⟩,
  ⟨"returns", .ofOption r.returns, fun s => { s with returns := r.returns }⟩,
  ⟨"docstring", .ofOption r.docstring, fun s => { s with docstring := r.docstring }⟩,
  ⟨"code", .ofOption r.code, fun s => { s with code := r.code }⟩]

theorem FunctionRecord.readAs_value (r : FunctionRecord) : r.value.ReadAs form.read r := by
  refine readAs_object form r.entries ?_ (by simp [entries])
    (by simp [Form.Complete, form, entries, Field.needed, Field.free])
  simp only [entries, List.forall_mem_cons, List.not_mem_nil, false_implies, implies_true, and_true]
  exact ⟨⟨_, rfl, (readAs_text _).map _⟩, ⟨_, rfl, (readAs_strings _).map _⟩,
    ⟨_, rfl, (readAs_ofOption _).map _⟩, ⟨_, rfl, (readAs_ofOption _).map _⟩,
    ⟨_, rfl, (readAs_ofOption _).map _⟩⟩

/-- The entries of a class. -/
def ClassRecord.entries (r : ClassRecord) : List (Entry ClassRecord) := [
  ⟨"name", .string r.name.toList, fun s => { s with name := r.name }⟩,
  ⟨"docstring", .ofOption r.docstring, fun s => { s with docstring := r.docstring }⟩,
  ⟨"code", .ofOption r.code, fun s => { s with code := r.code }⟩]

theorem ClassRecord.readAs_value (r : ClassRecord) : r.value.ReadAs form.read r := by
  refine readAs_object form r.entries ?_ (by simp [entries])
    (by simp [Form.Complete, form, entries, Field.needed, Field.free])
  simp only [entries, List.forall_mem_cons, List.not_mem_nil, false_implies, implies_true, and_true]
  exact ⟨⟨_, rfl, (readAs_text _).map _⟩, ⟨_, rfl, (readAs_ofOption _).map _⟩,
    ⟨_, rfl, (readAs_ofOption _).map _⟩⟩

/-- The entry of a member that may be left out. -/
def Json.Entry.given {α : Type} (key : String) (o : Option String)
    (put : Option String → α → α) : List (Entry α) :=
  match o with
  | none => []
  | some text => [⟨key, .string text.toList, put (some text)⟩]

/-- The entries that a file always has. -/
def FileRecord.plainEntries (r : FileRecord) : List (Entry FileRecord) := [
  ⟨"file", .string r.file.toList, fun s => { s with file := r.file }⟩,
  ⟨"path", .string r.path.toList, fun s => { s with path := r.path }⟩,
  ⟨"docstring", .ofOption r.docstring, fun s => { s with docstring := r.docstring }⟩,
  ⟨"imports", .ofStrings r.imports, fun s => { s with imports := r.imports }⟩,
  ⟨"functions", .array (r.functions.map FunctionRecord.value),
    fun s => { s with functions := r.functions }⟩,
  ⟨"classes", .array (r.classes.map ClassRecord.value), fun s => { s with classes := r.classes }⟩]

/-- The entries of a file: its text and its error are left out where they are absent. -/
def FileRecord.entries (r : FileRecord) : List (Entry FileRecord) :=
  r.plainEntries ++ Entry.given "code" r.code (fun v s => { s with code := v }) ++
    Entry.given "error" r.error (fun v s => { s with error := v })

theorem FileRecord.value_eq (r : FileRecord) :
    r.value = .object (r.entries.map fun entry => (entry.key.toList, entry.value)) := by
  cases hcode : r.code <;> cases herror : r.error <;>
    simp [value, entries, plainEntries, Entry.given, Value.given, hcode, herror]

theorem FileRecord.fits_of_mem_entries (r : FileRecord) :
    ∀ entry ∈ r.entries, entry.Fits form := by
  intro entry hentry
  simp only [entries, List.mem_append] at hentry
  obtain (hplain | hcode) | herror := hentry
  · revert entry
    simp only [plainEntries, List.forall_mem_cons, List.not_mem_nil, false_implies, implies_true,
      and_true]
    exact ⟨⟨_, rfl, (readAs_text _).map _⟩, ⟨_, rfl, (readAs_text _).map _⟩,
      ⟨_, rfl, (readAs_ofOption _).map _⟩, ⟨_, rfl, (readAs_strings _).map _⟩,
      ⟨_, rfl, (readAs_list FunctionRecord.readAs_value _).map _⟩,
      ⟨_, rfl, (readAs_list ClassRecord.readAs_value _).map _⟩⟩
  · cases hr : r.code with
    | none => simp [Entry.given, hr] at hcode
    | some text =>
      simp only [Entry.given, hr, List.mem_singleton] at hcode
      subst hcode
      exact ⟨_, rfl, (readAs_ofOption (some text)).map _⟩
  · cases hr : r.error with
    | none => simp [Entry.given, hr] at herror
    | some text =>
      simp only [Entry.given, hr, List.mem_singleton] at herror
      subst herror
      exact ⟨_, rfl, (readAs_ofOption (some text)).map _⟩

theorem FileRecord.readAs_value (r : FileRecord) : r.value.ReadAs form.read r := by
  have hnodup : (r.entries.map Entry.key).Nodup := by
    cases hcode : r.code <;> cases herror : r.error <;>
      simp [entries, plainEntries, Entry.given, hcode, herror]
  have h := readAs_object form r.entries r.fits_of_mem_entries hnodup
    (by simp [Form.Complete, form, entries, plainEntries, Field.needed, Field.free])
  rw [← value_eq] at h
  have hfilled : r.entries.foldl (fun record entry => entry.change record) form.blank = r := by
    obtain ⟨file, path, docstring, imports, functions, classes, code, error⟩ := r
    cases code <;> cases error <;> rfl
  rwa [hfilled] at h

/-- The entries of a commit. -/
def CommitRecord.entries (r : CommitRecord) : List (Entry CommitRecord) := [
  ⟨"hash", .string r.hash.toList, fun s => { s with hash := r.hash }⟩,
  ⟨"author", .string r.author.toList, fun s => { s with author := r.author }⟩,
  ⟨"date", .string r.date.toList, fun s => { s with date := r.date }⟩,
  ⟨"message", .string r.message.toList, fun s => { s with message := r.message }⟩]

theorem CommitRecord.readAs_value (r : CommitRecord) : r.value.ReadAs form.read r := by
  refine readAs_object form r.entries ?_ (by simp [entries])
    (by simp [Form.Complete, form, entries, Field.needed])
  simp only [entries, List.forall_mem_cons, List.not_mem_nil, false_implies, implies_true, and_true]
  exact ⟨⟨_, rfl, (readAs_text _).map _⟩, ⟨_, rfl, (readAs_text _).map _⟩,
    ⟨_, rfl, (readAs_text _).map _⟩, ⟨_, rfl, (readAs_text _).map _⟩⟩

/-- The entries of a survey. -/
def SurveyDocument.entries (d : SurveyDocument) : List (Entry SurveyDocument) := [
  ⟨"codebase", .array (d.codebase.map FileRecord.value), fun s => { s with codebase := d.codebase }⟩,
  ⟨"git_commits", .array (d.commits.map CommitRecord.value),
    fun s => { s with commits := d.commits }⟩]

theorem SurveyDocument.readAs_value (d : SurveyDocument) : d.value.ReadAs form.read d := by
  refine readAs_object form d.entries ?_ (by simp [entries])
    (by simp [Form.Complete, form, entries, Field.needed])
  simp only [entries, List.forall_mem_cons, List.not_mem_nil, false_implies, implies_true, and_true]
  exact ⟨⟨_, rfl, (readAs_list FileRecord.readAs_value _).map _⟩,
    ⟨_, rfl, (readAs_list CommitRecord.readAs_value _).map _⟩⟩

/-- What is written of a survey, or of one file, is read as exactly the same survey or file,
    whatever characters its texts are made of. -/
theorem ofText_text :
    (∀ d : SurveyDocument, SurveyDocument.ofText d.text = .ok d) ∧
      ∀ r : FileRecord, FileRecord.form.ofText r.text = .ok r :=
  ⟨fun d => Form.ofText_of_reads (d.readAs_value 4 0),
    fun r => Form.ofText_of_reads (r.readAs_value 2 0)⟩

end SourceSurvey
