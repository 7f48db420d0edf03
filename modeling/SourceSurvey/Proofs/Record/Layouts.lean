import SourceSurvey.Proofs.Json.Layouts
import SourceSurvey.Record.Json

/-!
Every layout of a survey is read as the survey, and nothing else that lacks a member or gives one
twice is read at all.
-/

namespace SourceSurvey

open Json Json.Form Json.Reader

/-! ### What writes a record -/

section Slots

variable {α β : Type}

/-- Something that a record always says. -/
def Json.Slot.needed (key : String) (writes : β → List Char → Prop) (value : β)
    (put : β → α → α) : Slot α := ⟨key, writes value, False, put value⟩

/-- Something that a record need not say where there is nothing to say. -/
def Json.Slot.free (key : String) (writes : β → List Char → Prop) (value nothing : β)
    (put : β → α → α) : Slot α := ⟨key, writes value, value = nothing, put value⟩

end Slots

/-- What a function says. -/
def FunctionRecord.slots (r : FunctionRecord) : List (Slot FunctionRecord) := [
  .needed "name" Spells r.name fun v s => { s with name := v },
  .needed "parameters" (WritesList Spells) r.parameters fun v s => { s with parameters := v },
  .free "returns" (WritesOption Spells) r.returns none fun v s => { s with returns := v },
  .free "docstring" (WritesOption Spells) r.docstring none fun v s => { s with docstring := v },
  .free "code" (WritesOption Spells) r.code none fun v s => { s with code := v }]

/-- What a class says. -/
def ClassRecord.slots (r : ClassRecord) : List (Slot ClassRecord) := [
  .needed "name" Spells r.name fun v s => { s with name := v },
  .free "docstring" (WritesOption Spells) r.docstring none fun v s => { s with docstring := v },
  .free "code" (WritesOption Spells) r.code none fun v s => { s with code := v }]

/-- The text writes the function. -/
def FunctionRecord.Writes (r : FunctionRecord) (text : List Char) : Prop := WritesRecord r.slots text

/-- The text writes the class. -/
def ClassRecord.Writes (r : ClassRecord) (text : List Char) : Prop := WritesRecord r.slots text

/-- What a file says. -/
def FileRecord.slots (r : FileRecord) : List (Slot FileRecord) := [
  .needed "file" Spells r.file fun v s => { s with file := v },
  .needed "path" Spells r.path fun v s => { s with path := v },
  .free "docstring" (WritesOption Spells) r.docstring none fun v s => { s with docstring := v },
  .free "imports" (WritesList Spells) r.imports [] fun v s => { s with imports := v },
  .free "functions" (WritesList FunctionRecord.Writes) r.functions []
    fun v s => { s with functions := v },
  .free "classes" (WritesList ClassRecord.Writes) r.classes [] fun v s => { s with classes := v },
  .free "code" (WritesOption Spells) r.code none fun v s => { s with code := v },
  .free "error" (WritesOption Spells) r.error none fun v s => { s with error := v }]

/-- The text writes the file. -/
def FileRecord.Writes (r : FileRecord) (text : List Char) : Prop := WritesRecord r.slots text

/-- What a commit says. -/
def CommitRecord.slots (r : CommitRecord) : List (Slot CommitRecord) := [
  .needed "hash" Spells r.hash fun v s => { s with hash := v },
  .needed "author" Spells r.author fun v s => { s with author := v },
  .needed "date" Spells r.date fun v s => { s with date := v },
  .needed "message" Spells r.message fun v s => { s with message := v }]

/-- The text writes the commit. -/
def CommitRecord.Writes (r : CommitRecord) (text : List Char) : Prop := WritesRecord r.slots text

/-- What a survey says. -/
def SurveyDocument.slots (d : SurveyDocument) : List (Slot SurveyDocument) := [
  .needed "codebase" (WritesList FileRecord.Writes) d.codebase fun v s => { s with codebase := v },
  .needed "git_commits" (WritesList CommitRecord.Writes) d.commits
    fun v s => { s with commits := v }]

/-- The text writes the survey. -/
def SurveyDocument.Writes (d : SurveyDocument) (text : List Char) : Prop := WritesRecord d.slots text

/-! ### What is at fault -/

/-- What is asked of a function. -/
def FunctionRecord.demands : List Demand := [
  .plain "name" true, .plain "parameters" true, .plain "returns" false, .plain "docstring" false,
  .plain "code" false]

/-- What is asked of a class. -/
def ClassRecord.demands : List Demand := [
  .plain "name" true, .plain "docstring" false, .plain "code" false]

/-- What is asked of a file, and of the functions and classes in it. -/
def FileRecord.demands : List Demand := [
  .plain "file" true, .plain "path" true, .plain "docstring" false, .plain "imports" false,
  .list "functions" false (Faulty FunctionRecord.demands),
  .list "classes" false (Faulty ClassRecord.demands), .plain "code" false, .plain "error" false]

/-- What is asked of a commit. -/
def CommitRecord.demands : List Demand := [
  .plain "hash" true, .plain "author" true, .plain "date" true, .plain "message" true]

/-- What is asked of a survey, and of the files and commits in it. -/
def SurveyDocument.demands : List Demand := [
  .list "codebase" true (Faulty FileRecord.demands),
  .list "git_commits" true (Faulty CommitRecord.demands)]

/-! ### Layouts are read -/

section Matching

variable {α β : Type} {writes : β → List Char → Prop} {value : β} {reader : Reader β}

theorem matches_needed (hreads : ∀ text, writes value text → Reads reader text value)
    (key : String) (put : β → α → α) :
    Matches (.needed key writes value put) (.needed key reader put) :=
  ⟨rfl, fun _ => id, fun text h => (hreads text h).map put⟩

theorem matches_free (hreads : ∀ text, writes value text → Reads reader text value)
    (key : String) (nothing : β) (put : β → α → α) :
    Matches (.free key writes value nothing put) (.free key reader put) :=
  ⟨rfl, nofun, fun text h => (hreads text h).map put⟩

/-- A list of records is read where every layout of each of them is. -/
theorem reads_records {form : Form α} {slots : α → List (Slot α)} {values : List α}
    {text : List Char} (h : WritesList (fun r => WritesRecord (slots r)) values text)
    (hform : ∀ r, form.Describes (slots r) r) : Reads (Reader.list form.read) text values :=
  reads_list_of_writes h fun r _ => (hform r).reads_of_writes

end Matching

theorem FunctionRecord.nodup_keys : (form.fields.map Field.key).Nodup := by
  simp [form, Field.needed, Field.free]

theorem FunctionRecord.describes_slots (r : FunctionRecord) : form.Describes r.slots r where
  nodup := nodup_keys
  fields :=
    .cons (matches_needed (fun _ => reads_text_of_spells) _ _) <|
    .cons (matches_needed (fun _ h => reads_list_of_writes h fun _ _ => reads_text_of_spells) _ _) <|
    .cons (matches_free (fun _ => reads_optional_text) _ _ _) <|
    .cons (matches_free (fun _ => reads_optional_text) _ _ _) <|
    .cons (matches_free (fun _ => reads_optional_text) _ _ _) .nil
  omissible := by simp [slots, Slot.needed, Slot.free, form]
  commutes := by simp [slots, Slot.needed, Slot.free]
  whole := by cases r; rfl

theorem ClassRecord.nodup_keys : (form.fields.map Field.key).Nodup := by
  simp [form, Field.needed, Field.free]

theorem ClassRecord.describes_slots (r : ClassRecord) : form.Describes r.slots r where
  nodup := nodup_keys
  fields :=
    .cons (matches_needed (fun _ => reads_text_of_spells) _ _) <|
    .cons (matches_free (fun _ => reads_optional_text) _ _ _) <|
    .cons (matches_free (fun _ => reads_optional_text) _ _ _) .nil
  omissible := by simp [slots, Slot.needed, Slot.free, form]
  commutes := by simp [slots, Slot.needed, Slot.free]
  whole := by cases r; rfl

theorem FileRecord.nodup_keys : (form.fields.map Field.key).Nodup := by
  simp [form, Field.needed, Field.free]

theorem FileRecord.describes_slots (r : FileRecord) : form.Describes r.slots r where
  nodup := nodup_keys
  fields :=
    .cons (matches_needed (fun _ => reads_text_of_spells) _ _) <|
    .cons (matches_needed (fun _ => reads_text_of_spells) _ _) <|
    .cons (matches_free (fun _ => reads_optional_text) _ _ _) <|
    .cons (matches_free (fun _ h => reads_list_of_writes h fun _ _ => reads_text_of_spells) _ _ _) <|
    .cons (matches_free (fun _ h => reads_records h fun r => r.describes_slots) _ _ _) <|
    .cons (matches_free (fun _ h => reads_records h fun r => r.describes_slots) _ _ _) <|
    .cons (matches_free (fun _ => reads_optional_text) _ _ _) <|
    .cons (matches_free (fun _ => reads_optional_text) _ _ _) .nil
  omissible := by simp [slots, Slot.needed, Slot.free, form]
  commutes := by simp [slots, Slot.needed, Slot.free]
  whole := by cases r; rfl

theorem CommitRecord.nodup_keys : (form.fields.map Field.key).Nodup := by
  simp [form, Field.needed]

theorem CommitRecord.describes_slots (r : CommitRecord) : form.Describes r.slots r where
  nodup := nodup_keys
  fields :=
    .cons (matches_needed (fun _ => reads_text_of_spells) _ _) <|
    .cons (matches_needed (fun _ => reads_text_of_spells) _ _) <|
    .cons (matches_needed (fun _ => reads_text_of_spells) _ _) <|
    .cons (matches_needed (fun _ => reads_text_of_spells) _ _) .nil
  omissible := by simp [slots, Slot.needed]
  commutes := by simp [slots, Slot.needed]
  whole := by cases r; rfl

theorem SurveyDocument.nodup_keys : (form.fields.map Field.key).Nodup := by
  simp [form, Field.needed]

theorem SurveyDocument.describes_slots (d : SurveyDocument) : form.Describes d.slots d where
  nodup := nodup_keys
  fields :=
    .cons (matches_needed (fun _ h => reads_records h fun r => r.describes_slots) _ _) <|
    .cons (matches_needed (fun _ h => reads_records h fun r => r.describes_slots) _ _) .nil
  omissible := by simp [slots, Slot.needed]
  commutes := by simp [slots, Slot.needed]
  whole := by cases d; rfl

/-! ### Texts at fault are refused -/

section Deciding

variable {α β : Type} {reader : Reader β}

/-- A field decides what the reader of its value decides. -/
theorem decides_change (hreader : ∀ text, Formed text → Decides reader text) (put : β → α → α) :
    ∀ text, Formed text → Decides (put <$> reader) text := fun text h => (hreader text h).map put

theorem decides_strings {text : List Char} (h : Formed text) :
    Decides (Reader.list Reader.text) text := decides_list (fun _ => decides_text) h

theorem decides_optional_text {text : List Char} (h : Formed text) :
    Decides (optional Reader.text) text := decides_optional h (decides_text h)

/-- A demand on a list of records is met by the field that reads them. -/
theorem meets_list {inner : Form β} {demands : List Demand} (hinner : inner.Decisive)
    (hrefuses : ∀ text, Faulty demands text → Refuses inner.read text) {key : String}
    {required : Bool} {put : List β → α → α} :
    Meets (.list key required (Faulty demands))
      ⟨key, required, put <$> Reader.list inner.read⟩ :=
  ⟨rfl, rfl, fun _ h =>
    (refuses_of_faultyList (fun _ => hinner.decides_read) hrefuses h).map put⟩

theorem meets_plain {key : String} {required : Bool} {field : Json.Field α} (hkey : key = field.key)
    (hrequired : required = field.required) : Meets (.plain key required) field :=
  ⟨hkey, hrequired, fun _ h => h.elim⟩

end Deciding

theorem FunctionRecord.decisive_form : form.Decisive := by
  simp only [Decisive, form, Field.needed, Field.free, List.forall_mem_cons, List.not_mem_nil,
    false_implies, implies_true, and_true]
  exact ⟨decides_change (fun _ => decides_text) _, decides_change (fun _ => decides_strings) _,
    decides_change (fun _ => decides_optional_text) _,
    decides_change (fun _ => decides_optional_text) _,
    decides_change (fun _ => decides_optional_text) _⟩

theorem FunctionRecord.refuses_of_faulty {text : List Char} (h : Faulty demands text) :
    Refuses form.read text :=
  decisive_form.refuses_of_faulty nodup_keys
    (.cons (meets_plain rfl rfl) <|
    .cons (meets_plain rfl rfl) <|
    .cons (meets_plain rfl rfl) <|
    .cons (meets_plain rfl rfl) <|
    .cons (meets_plain rfl rfl) .nil) h

theorem ClassRecord.decisive_form : form.Decisive := by
  simp only [Decisive, form, Field.needed, Field.free, List.forall_mem_cons, List.not_mem_nil,
    false_implies, implies_true, and_true]
  exact ⟨decides_change (fun _ => decides_text) _,
    decides_change (fun _ => decides_optional_text) _,
    decides_change (fun _ => decides_optional_text) _⟩

theorem ClassRecord.refuses_of_faulty {text : List Char} (h : Faulty demands text) :
    Refuses form.read text :=
  decisive_form.refuses_of_faulty nodup_keys
    (.cons (meets_plain rfl rfl) <|
    .cons (meets_plain rfl rfl) <|
    .cons (meets_plain rfl rfl) .nil) h

theorem FileRecord.decisive_form : form.Decisive := by
  simp only [Decisive, form, Field.needed, Field.free, List.forall_mem_cons, List.not_mem_nil,
    false_implies, implies_true, and_true]
  exact ⟨decides_change (fun _ => decides_text) _, decides_change (fun _ => decides_text) _,
    decides_change (fun _ => decides_optional_text) _, decides_change (fun _ => decides_strings) _,
    decides_change (fun _ => decides_list fun _ => FunctionRecord.decisive_form.decides_read) _,
    decides_change (fun _ => decides_list fun _ => ClassRecord.decisive_form.decides_read) _,
    decides_change (fun _ => decides_optional_text) _,
    decides_change (fun _ => decides_optional_text) _⟩

theorem FileRecord.refuses_of_faulty {text : List Char} (h : Faulty demands text) :
    Refuses form.read text :=
  decisive_form.refuses_of_faulty nodup_keys
    (.cons (meets_plain rfl rfl) <|
    .cons (meets_plain rfl rfl) <|
    .cons (meets_plain rfl rfl) <|
    .cons (meets_plain rfl rfl) <|
    .cons (meets_list FunctionRecord.decisive_form fun _ => FunctionRecord.refuses_of_faulty) <|
    .cons (meets_list ClassRecord.decisive_form fun _ => ClassRecord.refuses_of_faulty) <|
    .cons (meets_plain rfl rfl) <|
    .cons (meets_plain rfl rfl) .nil) h

theorem CommitRecord.decisive_form : form.Decisive := by
  simp only [Decisive, form, Field.needed, List.forall_mem_cons, List.not_mem_nil, false_implies,
    implies_true, and_true]
  exact ⟨decides_change (fun _ => decides_text) _, decides_change (fun _ => decides_text) _,
    decides_change (fun _ => decides_text) _, decides_change (fun _ => decides_text) _⟩

theorem CommitRecord.refuses_of_faulty {text : List Char} (h : Faulty demands text) :
    Refuses form.read text :=
  decisive_form.refuses_of_faulty nodup_keys
    (.cons (meets_plain rfl rfl) <|
    .cons (meets_plain rfl rfl) <|
    .cons (meets_plain rfl rfl) <|
    .cons (meets_plain rfl rfl) .nil) h

theorem SurveyDocument.decisive_form : form.Decisive := by
  simp only [Decisive, form, Field.needed, List.forall_mem_cons, List.not_mem_nil, false_implies,
    implies_true, and_true]
  exact ⟨decides_change (fun _ => decides_list fun _ => FileRecord.decisive_form.decides_read) _,
    decides_change (fun _ => decides_list fun _ => CommitRecord.decisive_form.decides_read) _⟩

theorem SurveyDocument.refuses_of_faulty {text : List Char} (h : Faulty demands text) :
    Refuses form.read text :=
  decisive_form.refuses_of_faulty nodup_keys
    (.cons (meets_list FileRecord.decisive_form fun _ => FileRecord.refuses_of_faulty) <|
    .cons (meets_list CommitRecord.decisive_form fun _ => CommitRecord.refuses_of_faulty) .nil) h

/-- Every text that writes a survey is read as exactly this survey: the members of its objects may
    come in any order, with unknown ones among them, with separators everywhere, and without those
    that say nothing. A text that lacks something a record has to say, or says something twice, in
    the survey or in a record inside it, is read as no survey at all. -/
theorem SurveyDocument.ofText_layouts :
    (∀ (d : SurveyDocument) (before text after : List Char), Blank before → Blank after →
        d.Writes text → ofText (before ++ (text ++ after)) = .ok d) ∧
      ∀ before text after : List Char, Blank before → Faulty demands text →
        ∃ fault, ofText (before ++ (text ++ after)) = .error fault :=
  ⟨fun d _ _ _ hbefore hafter h =>
      ofText_between_of_reads hbefore hafter (d.describes_slots.reads_of_writes h),
    fun _ _ after hbefore h => exists_ofText_eq_error hbefore (refuses_of_faulty h) after⟩

/-- A file with its members in another order, one of them in another spelling, and without those
    that say nothing. -/
theorem FileRecord.writes_reversed : Writes ⟨"a", "b", none, [], [], [], none, none⟩
    "\x7b\"path\" : \"b\",\"file\":\"\\u0061\"\x7d".toList := by
  let r : FileRecord := ⟨"a", "b", none, [], [], [], none, none⟩
  let path : Pair := ⟨"\"path\"".toList, [' '], [' '], "\"b\"".toList⟩
  let file : Pair := ⟨"\"file\"".toList, [], [], "\"\\u0061\"".toList⟩
  have hfile : Spells "a" file.value :=
    ⟨[.number ['0', '0', '6', '1'] 0x61 rfl (by decide)], by decide, by decide⟩
  have hmembers : Says (r.slots.map Slot.key) (r.slots.take 2).reverse [path, file] :=
    .known ⟨(spells_stringText "path").isString, rfl, rfl⟩ (spells_stringText "path")
      (spells_stringText "b") <|
    .known ⟨(spells_stringText "file").isString, rfl, rfl⟩ (spells_stringText "file") hfile .done
  have hperm : (r.slots.drop 2 ++ (r.slots.take 2).reverse).Perm r.slots :=
    List.perm_append_comm.trans ((List.reverse_perm (r.slots.take 2)).append_right (r.slots.drop 2))
  have hinside : Enumerated ([path, file].map Pair.text) _ :=
    .items blank_nil (.more file.text blank_nil blank_nil (.done blank_nil))
  exact .object hperm (by simp [r, slots, Slot.free]) hmembers hinside

/-- A survey of this file, with an unknown member in it. -/
theorem SurveyDocument.writes_reversed :
    Writes ⟨[⟨"a", "b", none, [], [], [], none, none⟩], []⟩
      ("\x7b\"git_commits\":[],\"note\":[1e3, null],\"codebase\":[\x7b\"path\" : \"b\"," ++
        "\"file\":\"\\u0061\"\x7d]\x7d").toList := by
  let d : SurveyDocument := ⟨[⟨"a", "b", none, [], [], [], none, none⟩], []⟩
  let file := "\x7b\"path\" : \"b\",\"file\":\"\\u0061\"\x7d".toList
  let commits : Pair := ⟨"\"git_commits\"".toList, [], [], "[]".toList⟩
  let note : Pair := ⟨"\"note\"".toList, [], [], "[1e3, null]".toList⟩
  let codebase : Pair := ⟨"\"codebase\"".toList, [], [], '[' :: (file ++ [']'])⟩
  have hspace : Blank [' '] := rfl
  have hwhole : IsWhole ['1'] := .digits ⟨by decide, by decide⟩ (by decide)
  have hdigits : IsDigits ['3'] := ⟨by decide, by decide⟩
  have hnumber : Formed "1e3".toList :=
    .number (.parts (.inl rfl) hwhole .none (.digits 'e' (.inl rfl) [] (.inl rfl) hdigits))
  have hitems : ∀ item ∈ ["1e3".toList, "null".toList], Formed item :=
    List.forall_mem_cons.mpr ⟨hnumber, List.forall_mem_singleton.mpr .null⟩
  have hnote : Formed note.value :=
    .array hitems (.items blank_nil (.more "null".toList blank_nil hspace (.done blank_nil)))
  have hcodebase : WritesList FileRecord.Writes d.codebase codebase.value :=
    .items (.cons FileRecord.writes_reversed .nil) (.items blank_nil (.done blank_nil))
  have hmembers : Says (d.slots.map Slot.key) d.slots.reverse [commits, note, codebase] :=
    .known ⟨(spells_stringText "git_commits").isString, rfl, rfl⟩ (spells_stringText "git_commits")
      (.items .nil (.empty blank_nil)) <|
    .unknown ⟨(spells_stringText "note").isString, rfl, rfl⟩ (spells_stringText "note")
      (by simp [slots, Slot.needed]) hnote <|
    .known ⟨(spells_stringText "codebase").isString, rfl, rfl⟩ (spells_stringText "codebase")
      hcodebase .done
  have hinside : Enumerated ([commits, note, codebase].map Pair.text) _ :=
    .items blank_nil (.more note.text blank_nil blank_nil
      (.more codebase.text blank_nil blank_nil (.done blank_nil)))
  have hperm : ([] ++ d.slots.reverse).Perm d.slots := List.reverse_perm d.slots
  exact .object hperm nofun hmembers hinside

/-- A survey of a file without a path. -/
theorem SurveyDocument.faulty_without_path :
    Faulty demands "\x7b\"codebase\":[\x7b\"file\":\"a\"\x7d]\x7d".toList := by
  let file : Pair := ⟨"\"file\"".toList, [], [], "\"a\"".toList⟩
  let codebase : Pair := ⟨"\"codebase\"".toList, [], [], "[\x7b\"file\":\"a\"\x7d]".toList⟩
  have hone (item : List Char) : Enumerated [item] (item ++ []) := .items blank_nil (.done blank_nil)
  have hobject : IsObject [file] "\x7b\"file\":\"a\"\x7d".toList :=
    ⟨List.forall_mem_singleton.mpr ⟨(spells_stringText "file").isString, rfl, rfl⟩,
      List.forall_mem_singleton.mpr (.string (spells_stringText "a").isString),
      ⟨file.text ++ [], hone file.text, rfl⟩⟩
  have hpath : ∀ p ∈ [file], ¬ Spells "path" p.name :=
    List.forall_mem_singleton.mpr fun hspells =>
      absurd (hspells.unique (spells_stringText "file")) (by decide)
  have hfile : Faulty FileRecord.demands "\x7b\"file\":\"a\"\x7d".toList :=
    .missing hobject (.plain "path" true) (by simp [FileRecord.demands]) rfl hpath
  have hlist : IsList ["\x7b\"file\":\"a\"\x7d".toList] codebase.value :=
    ⟨List.forall_mem_singleton.mpr hobject.formed, ⟨_, hone _, rfl⟩⟩
  have hsurvey : IsObject [codebase] "\x7b\"codebase\":[\x7b\"file\":\"a\"\x7d]\x7d".toList :=
    ⟨List.forall_mem_singleton.mpr ⟨(spells_stringText "codebase").isString, rfl, rfl⟩,
      List.forall_mem_singleton.mpr hlist.formed, ⟨_, hone codebase.text, rfl⟩⟩
  exact .value hsurvey (.list "codebase" true (Faulty FileRecord.demands)) List.mem_cons_self codebase
    (List.mem_singleton_self codebase) (spells_stringText "codebase")
    ⟨_, hlist, _, List.mem_singleton_self _, hfile⟩

/-- A survey in an uncommon layout is read, and one in which a file has no path is not. -/
theorem SurveyDocument.ofText_layouts_reversed :
    ofText ("\x7b\"git_commits\":[],\"note\":[1e3, null],\"codebase\":[\x7b\"path\" : \"b\"," ++
        "\"file\":\"\\u0061\"\x7d]\x7d").toList =
        .ok ⟨[⟨"a", "b", none, [], [], [], none, none⟩], []⟩ ∧
      ∃ fault, ofText "\x7b\"codebase\":[\x7b\"file\":\"a\"\x7d]\x7d".toList = .error fault :=
  ⟨by simpa using ofText_layouts.1 _ [] _ [] blank_nil blank_nil writes_reversed,
    by simpa using ofText_layouts.2 [] _ [] blank_nil faulty_without_path⟩

end SourceSurvey
