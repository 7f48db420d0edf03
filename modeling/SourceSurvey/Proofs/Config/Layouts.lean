import Mathlib
import SourceSurvey.Config
import SourceSurvey.Proofs.Json.Scalars
import SourceSurvey.Proofs.Text.Utf8

/-!
Every layout of a file with settings is loaded as the settings that it gives, with the default of
every other one. A single setting of another type or range, or one that is given twice, makes all
settings the default ones.
-/

namespace SourceSurvey

open Json Json.Form Json.Reader

/-! ### What a file gives -/

/-- The settings of a scan as far as they are given. -/
structure GivenScan where
  excluded : Option (List String)
  respectIgnoreFiles : Option Bool

/-- The settings of a history as far as they are given. -/
structure GivenHistory where
  enabled : Option Bool
  timeoutSeconds : Option Nat

/-- The settings of a survey as far as they are given. -/
structure GivenConfig where
  outputDirectory : Option String
  parallel : Option Bool
  scan : Option GivenScan
  history : Option GivenHistory

/-- What is given of a scan, and the default of everything else. -/
def GivenScan.filled (given : GivenScan) : ScanConfig where
  excluded := given.excluded.getD Config.scanDefault.excluded
  respectIgnoreFiles := given.respectIgnoreFiles.getD Config.scanDefault.respectIgnoreFiles

/-- What is given of a history, and the default of everything else. -/
def GivenHistory.filled (given : GivenHistory) : HistoryConfig where
  enabled := given.enabled.getD Config.historyDefault.enabled
  timeoutSeconds := given.timeoutSeconds.getD Config.historyDefault.timeoutSeconds

/-- What is given of a survey, and the default of everything else. -/
def GivenConfig.filled (given : GivenConfig) : Config where
  outputDirectory := given.outputDirectory.getD Config.default.outputDirectory
  parallel := given.parallel.getD Config.default.parallel
  scan := (given.scan.map GivenScan.filled).getD Config.default.scan
  history := (given.history.map GivenHistory.filled).getD Config.default.history

/-- Something that a record says exactly if it is given. -/
def Json.Slot.given {α β : Type} (key : String) (writes : β → List Char → Prop) (value : Option β)
    (put : β → α → α) : Slot α where
  key := key
  writes text := ∃ v, value = some v ∧ writes v text
  omissible := value = none
  copy := value.elim id put

/-- What is said of a scan. -/
def GivenScan.slots (given : GivenScan) : List (Slot ScanConfig) := [
  .given "exclude_dir_names" (WritesList Spells) given.excluded fun v c => { c with excluded := v },
  .given "respect_ignore_files" WritesBoolean given.respectIgnoreFiles
    fun v c => { c with respectIgnoreFiles := v }]

/-- The text gives these settings of a scan, and no others. -/
def GivenScan.Writes (given : GivenScan) (text : List Char) : Prop := WritesRecord given.slots text

/-- What is said of a history. -/
def GivenHistory.slots (given : GivenHistory) : List (Slot HistoryConfig) := [
  .given "enabled" WritesBoolean given.enabled fun v c => { c with enabled := v },
  .given "timeout_secs" WritesNatural given.timeoutSeconds
    fun v c => { c with timeoutSeconds := v }]

/-- The text gives these settings of a history, and no others. -/
def GivenHistory.Writes (given : GivenHistory) (text : List Char) : Prop :=
  WritesRecord given.slots text

/-- What is said of a survey. -/
def GivenConfig.slots (given : GivenConfig) : List (Slot Config) := [
  .given "output_dir" Spells given.outputDirectory fun v c => { c with outputDirectory := v },
  .given "parallel" WritesBoolean given.parallel fun v c => { c with parallel := v },
  .given "scan" GivenScan.Writes given.scan fun v c => { c with scan := v.filled },
  .given "history" GivenHistory.Writes given.history fun v c => { c with history := v.filled }]

/-- The text gives these settings of a survey, and no others. -/
def GivenConfig.Writes (given : GivenConfig) (text : List Char) : Prop :=
  WritesRecord given.slots text

/-! ### What is at fault -/

namespace Config

/-- What is asked of the settings of a scan. -/
def scanDemands : List Demand := [
  .typed "exclude_dir_names" (WritesList Spells), .typed "respect_ignore_files" WritesBoolean]

/-- What is asked of the settings of a history. -/
def historyDemands : List Demand := [
  .typed "enabled" WritesBoolean, .typed "timeout_secs" WritesNatural]

/-- What is asked of the settings of a survey. -/
def demands : List Demand := [
  .typed "output_dir" Spells, .typed "parallel" WritesBoolean, .record "scan" scanDemands,
  .record "history" historyDemands]

end Config

/-! ### Layouts are read -/

section Matching

variable {α β γ : Type} {writes : γ → List Char → Prop} {reader : Reader β} {of : γ → β}

theorem matches_given (hreads : ∀ v text, writes v text → Reads reader text (of v)) (key : String)
    (value : Option γ) (put : β → α → α) :
    Matches (.given key writes value fun v => put (of v)) (.free key reader put) where
  key := rfl
  required := nofun
  reads := by
    rintro text ⟨v, rfl, hv⟩
    exact (hreads v text hv).map put

end Matching

theorem GivenScan.nodup_keys : (Config.scanForm.fields.map Field.key).Nodup := by
  simp [Config.scanForm, Field.free]

theorem GivenScan.describes_slots (given : GivenScan) :
    Config.scanForm.Describes given.slots given.filled where
  nodup := nodup_keys
  fields :=
    .cons (matches_given (readsExactly_list (readsExactly_textAs "a string")).reads _ _ _) <|
    .cons (matches_given readsExactly_boolean.reads _ _ _) .nil
  omissible := by simp +contextual [slots, Slot.given]
  commutes := by obtain ⟨_ | _, _ | _⟩ := given <;> simp [slots, Slot.given]
  whole := by obtain ⟨_ | _, _ | _⟩ := given <;> rfl

theorem GivenHistory.nodup_keys : (Config.historyForm.fields.map Field.key).Nodup := by
  simp [Config.historyForm, Field.free]

theorem GivenHistory.describes_slots (given : GivenHistory) :
    Config.historyForm.Describes given.slots given.filled where
  nodup := nodup_keys
  fields :=
    .cons (matches_given readsExactly_boolean.reads _ _ _) <|
    .cons (matches_given readsExactly_natural.reads _ _ _) .nil
  omissible := by simp +contextual [slots, Slot.given]
  commutes := by obtain ⟨_ | _, _ | _⟩ := given <;> simp [slots, Slot.given]
  whole := by obtain ⟨_ | _, _ | _⟩ := given <;> rfl

theorem GivenConfig.nodup_keys : (Config.form.fields.map Field.key).Nodup := by
  simp [Config.form, Field.free]

theorem GivenConfig.describes_slots (given : GivenConfig) :
    Config.form.Describes given.slots given.filled where
  nodup := nodup_keys
  fields :=
    .cons (matches_given (readsExactly_textAs "path string").reads _ _ _) <|
    .cons (matches_given readsExactly_boolean.reads _ _ _) <|
    .cons (matches_given (fun v _ => (GivenScan.describes_slots v).reads_of_writes) _ _
      fun v (c : Config) => { c with scan := v }) <|
    .cons (matches_given (fun v _ => (GivenHistory.describes_slots v).reads_of_writes) _ _
      fun v (c : Config) => { c with history := v }) .nil
  omissible := by simp +contextual [slots, Slot.given]
  commutes := by obtain ⟨_ | _, _ | _, _ | _, _ | _⟩ := given <;> simp [slots, Slot.given]
  whole := by obtain ⟨_ | _, _ | _, _ | _, _ | _⟩ := given <;> rfl

/-! ### Settings at fault are refused -/

section Deciding

variable {α β : Type} {writes : β → List Char → Prop} {reader : Reader β}

theorem meets_typed (h : ReadsExactly reader writes) (key : String) (put : β → α → α) :
    Meets (.typed key writes) (.free key reader put) :=
  ⟨rfl, rfl, fun text ⟨htext, hnot⟩ => (h.refuses text htext hnot).map put⟩

theorem meets_record {demands : List Demand}
    (hrefuses : ∀ text, FaultyRecord demands text → Refuses reader text) (key : String)
    (put : β → α → α) : Meets (.record key demands) (.free key reader put) :=
  ⟨rfl, rfl, fun text h => (hrefuses text h).map put⟩

end Deciding

namespace Config

theorem decisive_scanForm : scanForm.Decisive := by
  simp only [Decisive, scanForm, Field.free, List.forall_mem_cons, List.not_mem_nil, false_implies,
    implies_true, and_true]
  exact ⟨fun _ h => ((readsExactly_list (readsExactly_textAs "a string")).decides h).map _,
    fun _ h => (readsExactly_boolean.decides h).map _⟩

theorem refuses_of_faulty_scan {text : List Char} (h : FaultyRecord scanDemands text) :
    Refuses scanForm.read text :=
  decisive_scanForm.refuses_of_faultyRecord GivenScan.nodup_keys
    (.cons (meets_typed (readsExactly_list (readsExactly_textAs "a string")) _ _) <|
    .cons (meets_typed readsExactly_boolean _ _) .nil) h

theorem decisive_historyForm : historyForm.Decisive := by
  simp only [Decisive, historyForm, Field.free, List.forall_mem_cons, List.not_mem_nil,
    false_implies, implies_true, and_true]
  exact ⟨fun _ h => (readsExactly_boolean.decides h).map _,
    fun _ h => (readsExactly_natural.decides h).map _⟩

theorem refuses_of_faulty_history {text : List Char} (h : FaultyRecord historyDemands text) :
    Refuses historyForm.read text :=
  decisive_historyForm.refuses_of_faultyRecord GivenHistory.nodup_keys
    (.cons (meets_typed readsExactly_boolean _ _) <|
    .cons (meets_typed readsExactly_natural _ _) .nil) h

theorem decisive_form : form.Decisive := by
  simp only [Decisive, form, Field.free, List.forall_mem_cons, List.not_mem_nil, false_implies,
    implies_true, and_true]
  exact ⟨fun _ h => ((readsExactly_textAs "path string").decides h).map _,
    fun _ h => (readsExactly_boolean.decides h).map _,
    fun _ h => (decisive_scanForm.decides_read h).map _,
    fun _ h => (decisive_historyForm.decides_read h).map _⟩

theorem refuses_of_faulty {text : List Char} (h : Faulty demands text) : Refuses form.read text :=
  decisive_form.refuses_of_faulty GivenConfig.nodup_keys
    (.cons (meets_typed (readsExactly_textAs "path string") _ _) <|
    .cons (meets_typed readsExactly_boolean _ _) <|
    .cons (meets_record (fun _ => refuses_of_faulty_scan) _ _) <|
    .cons (meets_record (fun _ => refuses_of_faulty_history) _ _) .nil) h

end Config

/-! ### Settings that can be given -/

/-- Something that is given can be said if there is a text that writes it. -/
theorem omissible_or_exists_writes {α β : Type} {writes : β → List Char → Prop} {value : Option β}
    (h : ∀ v, value = some v → ∃ text, writes v text) (key : String) (put : β → α → α) :
    (Slot.given key writes value put).omissible ∨
      ∃ text, (Slot.given key writes value put).writes text := by
  cases value with
  | none => exact .inl rfl
  | some v =>
    obtain ⟨text, htext⟩ := h v rfl
    exact .inr ⟨text, v, rfl, htext⟩

theorem exists_spells (s : String) : ∃ text, Spells s text := ⟨_, spells_stringText s⟩

theorem exists_writesBoolean (b : Bool) : ∃ text, WritesBoolean b text := by
  cases b with
  | true => exact ⟨_, .yes⟩
  | false => exact ⟨_, .no⟩

theorem GivenScan.exists_writes (given : GivenScan) : ∃ text, given.Writes text := by
  refine exists_writesRecord (List.forall_mem_cons.mpr ⟨?_, List.forall_mem_singleton.mpr ?_⟩)
  · exact omissible_or_exists_writes
      (fun names _ => exists_writesList fun name _ => exists_spells name) _ _
  · exact omissible_or_exists_writes (fun b _ => exists_writesBoolean b) _ _

/-- All numbers that are given fit into a word. -/
def GivenHistory.Fits (given : GivenHistory) : Prop :=
  ∀ n, given.timeoutSeconds = some n → n ≤ Numeral.wordLimit

theorem GivenHistory.exists_writes {given : GivenHistory} (hfits : given.Fits) :
    ∃ text, given.Writes text := by
  refine exists_writesRecord (List.forall_mem_cons.mpr ⟨?_, List.forall_mem_singleton.mpr ?_⟩)
  · exact omissible_or_exists_writes (fun b _ => exists_writesBoolean b) _ _
  · exact omissible_or_exists_writes
      (fun n hn => ⟨_, writesNatural_toDigits (hfits n hn)⟩) _ _

/-- All numbers that are given fit into a word. -/
def GivenConfig.Fits (given : GivenConfig) : Prop :=
  ∀ history, given.history = some history → history.Fits

/-- Whatever is given, and whatever is not, there is a text that gives just this. -/
theorem GivenConfig.exists_writes {given : GivenConfig} (hfits : given.Fits) :
    ∃ text, given.Writes text := by
  refine exists_writesRecord (List.forall_mem_cons.mpr ⟨?_, List.forall_mem_cons.mpr ⟨?_,
    List.forall_mem_cons.mpr ⟨?_, List.forall_mem_singleton.mpr ?_⟩⟩⟩)
  · exact omissible_or_exists_writes (fun directory _ => exists_spells directory) _ _
  · exact omissible_or_exists_writes (fun b _ => exists_writesBoolean b) _ _
  · exact omissible_or_exists_writes (fun scan _ => scan.exists_writes) _ _
  · exact omissible_or_exists_writes (fun history hhistory =>
      GivenHistory.exists_writes (hfits history hhistory)) _ _

/-! ### Loading -/

namespace Config

open Text.Utf8

section Text

variable {t : Files.Tree} {root : List UInt8} {text : List Char}
  (hread : t.read (path root) = .ok (encode text))

include hread

/-- A file that can be read, and is a text, is loaded as what the text says. -/
theorem load_of_ofText_eq_ok {config : Config} (htext : ofText text = .ok config) :
    load t root = (config, none) := by
  simp only [load, hread, Except.toOption, Option.bind_some, decode?_encode, htext]

theorem load_of_ofText_eq_error {fault : Fault} (htext : ofText text = .error fault) :
    load t root = (default, some fault) := by
  simp only [load, hread, Except.toOption, Option.bind_some, decode?_encode, htext]

end Text

/-- A directory with nothing but a file with settings. -/
def settingsTree (text : List Char) : Files.Tree :=
  ⟨.directory [(Files.Name.of fileName, .file (encode text))], []⟩

theorem read_settingsTree (text : List Char) :
    (settingsTree text).read (path [Files.Path.slash]) = .ok (encode text) := by
  have hnames : (settingsTree text).names (path [Files.Path.slash]) = .ok [Files.Name.of fileName] := by
    cbv
  rw [Files.Tree.read, Files.Tree.find, hnames]
  rfl

end Config

/-- Settings of a scan of which one is given, behind an unknown member. -/
theorem GivenScan.writes_unknown : Writes ⟨none, some true⟩
    "\x7b\"note\":[1e3, null],\"respect_ignore_files\":true\x7d".toList := by
  let given : GivenScan := ⟨none, some true⟩
  let note : Pair := ⟨"\"note\"".toList, [], [], "[1e3, null]".toList⟩
  let respects : Pair := ⟨"\"respect_ignore_files\"".toList, [], [], "true".toList⟩
  have hwhole : IsWhole ['1'] := .digits ⟨by decide, by decide⟩ (by decide)
  have hnumber : Formed "1e3".toList :=
    .number (.parts (.inl rfl) hwhole .none (.digits 'e' (.inl rfl) [] (.inl rfl)
      ⟨by decide, by decide⟩))
  have hspace : Blank [' '] := rfl
  have hnote : Formed note.value :=
    .array (List.forall_mem_cons.mpr ⟨hnumber, List.forall_mem_singleton.mpr .null⟩)
      (.items blank_nil (.more "null".toList blank_nil hspace (.done blank_nil)))
  have hmembers : Says (given.slots.map Slot.key) (given.slots.drop 1) [note, respects] :=
    .unknown ⟨(spells_stringText "note").isString, rfl, rfl⟩ (spells_stringText "note")
      (by simp [slots, Slot.given]) hnote <|
    .known ⟨(spells_stringText "respect_ignore_files").isString, rfl, rfl⟩
      (spells_stringText "respect_ignore_files") ⟨true, rfl, .yes⟩ .done
  have hinside : Enumerated ([note, respects].map Pair.text) _ :=
    .items blank_nil (.more respects.text blank_nil blank_nil (.done blank_nil))
  have hperm : (given.slots.take 1 ++ given.slots.drop 1).Perm given.slots := .refl _
  exact .object hperm (List.forall_mem_singleton.mpr rfl) hmembers hinside

/-- These settings of a scan before another setting that comes first among the fields. -/
theorem GivenConfig.writes_reversed : Writes ⟨none, some false, some ⟨none, some true⟩, none⟩
    ("\x7b\"scan\" : \x7b\"note\":[1e3, null],\"respect_ignore_files\":true\x7d," ++
      "\"parallel\":false\x7d").toList := by
  let given : GivenConfig := ⟨none, some false, some ⟨none, some true⟩, none⟩
  let scan : Pair := ⟨"\"scan\"".toList, [' '], [' '],
    "\x7b\"note\":[1e3, null],\"respect_ignore_files\":true\x7d".toList⟩
  let parallel : Pair := ⟨"\"parallel\"".toList, [], [], "false".toList⟩
  have hmembers : Says (given.slots.map Slot.key) ((given.slots.drop 1).take 2).reverse
      [scan, parallel] :=
    .known ⟨(spells_stringText "scan").isString, rfl, rfl⟩ (spells_stringText "scan")
      ⟨_, rfl, GivenScan.writes_unknown⟩ <|
    .known ⟨(spells_stringText "parallel").isString, rfl, rfl⟩ (spells_stringText "parallel")
      ⟨false, rfl, .no⟩ .done
  have hinside : Enumerated ([scan, parallel].map Pair.text) _ :=
    .items blank_nil (.more parallel.text blank_nil blank_nil (.done blank_nil))
  have hperm : ((given.slots.take 1 ++ given.slots.drop 3) ++
      ((given.slots.drop 1).take 2).reverse).Perm given.slots :=
    (List.reverse_perm (given.slots.drop 1)).cons _
  exact .object hperm (by simp [slots, Slot.given, given]) hmembers hinside

/-- A number that no word holds, among other settings. -/
theorem Config.faulty_large : Faulty demands
    ("\x7b\"parallel\":false,\"history\":\x7b\"timeout_secs\":" ++
      "18446744073709551616\x7d\x7d").toList := by
  let number := "18446744073709551616".toList
  let timeout : Pair := ⟨"\"timeout_secs\"".toList, [], [], number⟩
  let parallel : Pair := ⟨"\"parallel\"".toList, [], [], "false".toList⟩
  let history : Pair := ⟨"\"history\"".toList, [], [],
    "\x7b\"timeout_secs\":18446744073709551616\x7d".toList⟩
  have hwhole : IsWhole number := .digits ⟨by decide, by decide⟩ (by decide)
  have hnumber : Formed number := .number (.parts (.inl rfl) hwhole .none .none)
  have hlarge : ∀ n, ¬ WritesNatural n number := fun n h =>
    absurd (h.value ▸ h.fits) (by decide)
  have hinside : Enumerated [timeout.text] (timeout.text ++ []) := .items blank_nil (.done blank_nil)
  have hinner : IsObject [timeout] history.value :=
    ⟨List.forall_mem_singleton.mpr ⟨(spells_stringText "timeout_secs").isString, rfl, rfl⟩,
      List.forall_mem_singleton.mpr hnumber, ⟨_, hinside, rfl⟩⟩
  have hhistory : Faulty historyDemands history.value :=
    .value hinner (.typed "timeout_secs" WritesNatural) (by simp [historyDemands]) timeout
      (List.mem_singleton_self timeout) (spells_stringText "timeout_secs") ⟨hnumber, hlarge⟩
  have houter : IsObject [parallel, history] ("\x7b\"parallel\":false,\"history\":" ++
      "\x7b\"timeout_secs\":18446744073709551616\x7d\x7d").toList :=
    ⟨List.forall_mem_cons.mpr ⟨⟨(spells_stringText "parallel").isString, rfl, rfl⟩,
        List.forall_mem_singleton.mpr ⟨(spells_stringText "history").isString, rfl, rfl⟩⟩,
      List.forall_mem_cons.mpr ⟨.no, List.forall_mem_singleton.mpr hinner.formed⟩,
      ⟨_, .items blank_nil (.more history.text blank_nil blank_nil (.done blank_nil)), rfl⟩⟩
  exact .value houter (.record "history" historyDemands) (by simp [demands]) history
    (by simp) (spells_stringText "history") (.inside hhistory)

end SourceSurvey
