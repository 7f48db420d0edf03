import SourceSurvey.Proofs.Files.Patterns
import SourceSurvey.Proofs.Scan.Exclusion

/-!
Scans that exclude plain names. They leave out the files that have one of the names among their steps
below the scanned directory, and no others.
-/

namespace SourceSurvey.Scan

open Files
open Files.Glob (IsPlain)
open Files.Path (slash)
open Text.Utf8 (encode)

/-! ### The names that entries stand for -/

/-- The name that an entry of a list of exclusions stands for: its text without the blanks and then
    without the slashes at either end. -/
def excludedName (entry : List Char) : List Char :=
  (((Text.trim entry).dropWhile (· == '/')).reverse.dropWhile (· == '/')).reverse

/-- The names that a list of exclusions stands for. Blank entries stand for none. -/
def excludedNames (excluded : List String) : List (List Char) :=
  (excluded.map fun entry => excludedName entry.toList).filter (· ≠ [])

theorem mem_excludedNames_iff {excluded : List String} {name : List Char} :
    name ∈ excludedNames excluded ↔
      name ≠ [] ∧ ∃ entry ∈ excluded, excludedName entry.toList = name := by
  rw [excludedNames, List.mem_filter, List.mem_map, decide_eq_true_eq, and_comm]

theorem mem_exclusionLines_iff {entry line : List Char} :
    line ∈ exclusionLines entry ↔ excludedName entry ≠ [] ∧
      (line = '!' :: '*' :: '*' :: '/' :: excludedName entry ∨
        line = '!' :: '*' :: '*' :: '/' :: (excludedName entry ++ ['/', '*', '*'])) := by
  have hlines : exclusionLines entry =
      if (excludedName entry).isEmpty then []
      else ['!' :: '*' :: '*' :: '/' :: excludedName entry,
        '!' :: '*' :: '*' :: '/' :: (excludedName entry ++ ['/', '*', '*'])] := rfl
  rw [hlines]
  cases hname : excludedName entry with
  | nil => simp
  | cons c rest => simp

/-- The lines that stand for some names: each name anywhere, and everything below it. -/
theorem mem_linesOf_iff_exists_name {excluded : List String} {line : List Char} :
    line ∈ linesOf excluded ↔ ∃ name ∈ excludedNames excluded,
      line = '!' :: '*' :: '*' :: '/' :: name ∨
        line = '!' :: '*' :: '*' :: '/' :: (name ++ ['/', '*', '*']) := by
  simp only [mem_linesOf_iff, mem_exclusionLines_iff, mem_excludedNames_iff]
  constructor
  · rintro ⟨entry, hentry, hne, hline⟩
    exact ⟨_, ⟨hne, entry, hentry, rfl⟩, hline⟩
  · rintro ⟨name, ⟨hne, entry, hentry, rfl⟩, hline⟩
    exact ⟨entry, hentry, hne, hline⟩

theorem exclusionRule_named {name : List Char} (hname : IsPlain name) (hne : name ≠ []) :
    exclusionRule ('!' :: '*' :: '*' :: '/' :: name) = .ok (some (Rule.named name)) := by
  rw [exclusionRule, Rule.parse?_named hname hne]
  rfl

theorem exclusionRule_below {name : List Char} (hname : IsPlain name) :
    exclusionRule ('!' :: '*' :: '*' :: '/' :: (name ++ ['/', '*', '*'])) =
      .ok (some (Rule.below name)) := by
  rw [exclusionRule, Rule.parse?_below hname]
  rfl

/-- The exclusions of plain names succeed, with two rules for each name. -/
theorem exists_exclusions_of_isPlain {excluded : List String}
    (hplain : ∀ name ∈ excludedNames excluded, IsPlain name) :
    ∃ rules, exclusions excluded = .ok rules ∧ ∀ rule, rule ∈ rules ↔
      ∃ name ∈ excludedNames excluded, rule = Rule.named name ∨ rule = Rule.below name := by
  have hne : ∀ name ∈ excludedNames excluded, name ≠ [] := fun name hname =>
    (mem_excludedNames_iff.mp hname).1
  obtain ⟨rules, hrules⟩ := (exists_exclusions_iff excluded).mpr fun line hline => by
    obtain ⟨name, hname, rfl | rfl⟩ := mem_linesOf_iff_exists_name.mp hline
    · exact ⟨_, exclusionRule_named (hplain name hname) (hne name hname)⟩
    · exact ⟨_, exclusionRule_below (hplain name hname)⟩
  refine ⟨rules, hrules, fun rule => ?_⟩
  rw [mem_exclusions_iff hrules]
  constructor
  · rintro ⟨line, hline, hread⟩
    obtain ⟨name, hname, rfl | rfl⟩ := mem_linesOf_iff_exists_name.mp hline
    · rw [exclusionRule_named (hplain name hname) (hne name hname)] at hread
      cases hread
      exact ⟨name, hname, .inl rfl⟩
    · rw [exclusionRule_below (hplain name hname)] at hread
      cases hread
      exact ⟨name, hname, .inr rfl⟩
  · rintro ⟨name, hname, rfl | rfl⟩
    · exact ⟨_, mem_linesOf_iff_exists_name.mpr ⟨name, hname, .inl rfl⟩,
        exclusionRule_named (hplain name hname) (hne name hname)⟩
    · exact ⟨_, mem_linesOf_iff_exists_name.mpr ⟨name, hname, .inr rfl⟩,
        exclusionRule_below (hplain name hname)⟩

/-! ### What the names leave out -/

section Names

variable {names : List (List Char)} {rules : List Rule} (hne : ∀ name ∈ names, name ≠ [])
  (hplain : ∀ name ∈ names, IsPlain name)
  (hrules : ∀ rule, rule ∈ rules ↔ ∃ name ∈ names, rule = Rule.named name ∨ rule = Rule.below name)

include hne hplain hrules

/-- The rules for some names cover a path exactly if one of the names is among its steps. -/
theorem covered_iff {path : List Name} (hpath : path ≠ []) (hsteps : ∀ step ∈ path, slash ∉ step)
    (isDirectory : Bool) :
    covered rules path isDirectory = true ↔ ∃ name ∈ names, encode name ∈ path := by
  have hcovers (name : List Char) (hname : name ∈ names) :=
    Rule.covers_named_or_below_iff (hne name hname) (hplain name hname).noSlash
      (List.reverse_ne_nil_iff.mpr hpath) (fun step hstep => hsteps step (List.mem_reverse.mp hstep))
      isDirectory
  rw [covered, List.any_eq_true]
  constructor
  · rintro ⟨rule, hrule, hcover⟩
    obtain ⟨name, hname, rfl | rfl⟩ := (hrules rule).mp hrule
    · exact ⟨name, hname, List.mem_reverse.mp ((hcovers name hname).mp (.inl hcover))⟩
    · exact ⟨name, hname, List.mem_reverse.mp ((hcovers name hname).mp (.inr hcover))⟩
  · rintro ⟨name, hname, hstep⟩
    obtain hcover | hcover := (hcovers name hname).mpr (List.mem_reverse.mpr hstep)
    · exact ⟨_, (hrules _).mpr ⟨name, hname, .inl rfl⟩, hcover⟩
    · exact ⟨_, (hrules _).mpr ⟨name, hname, .inr rfl⟩, hcover⟩

/-- What is spared has none of the names among its steps: each directory on the way to it is judged
    by a part of them. -/
theorem spares_iff {path : List Name} (hsteps : ∀ step ∈ path, slash ∉ step) (isDirectory : Bool) :
    spares rules isDirectory path = true ↔ ∀ step ∈ path, step ∉ names.map encode := by
  induction path generalizing isDirectory with
  | nil => exact ⟨fun _ => nofun, fun _ => rfl⟩
  | cons step above ih =>
    have habove := ih (fun other hother => hsteps other (List.mem_cons_of_mem step hother)) true
    have hcovered := covered_iff hne hplain hrules (List.cons_ne_nil step above) hsteps isDirectory
    rw [spares, Bool.and_eq_true, Bool.not_eq_true', ← Bool.not_eq_true, hcovered, habove]
    constructor
    · rintro ⟨hnone, -⟩ other hother hmem
      obtain ⟨name, hname, rfl⟩ := List.mem_map.mp hmem
      exact hnone ⟨name, hname, hother⟩
    · intro hall
      exact ⟨fun ⟨name, hname, hstep⟩ => hall _ hstep (List.mem_map_of_mem hname),
        fun other hother => hall other (List.mem_cons_of_mem step hother)⟩

end Names

/-! ### Scans -/

/-- The names that lead from a root to an entry. -/
def Entry.names (root : List UInt8) (entry : Entry) : List Name :=
  Text.split slash (entry.path.drop (rooted root).length)

theorem Entry.names_of {root : List UInt8} (hroot : root ≠ []) {names : List Name}
    (hne : names ≠ []) (hnames : ∀ name ∈ names, IsName name) :
    (Entry.of root names).names root = names := by
  have hpath : (Entry.of root names).path = rooted root ++ Text.join [slash] names :=
    pathBelow_eq_append hroot hne hnames
  rw [Entry.names, hpath, List.drop_left]
  exact Text.split_join hne fun name hname => (hnames name hname).noSlash

/-- A walk with the rules for some names finds what it finds without any rules, as far as none of the
    names is among the steps. -/
theorem walked_of_names {w : Walk} {content : List (Name × Node)} {names : List (List Char)}
    (hne : ∀ name ∈ names, name ≠ []) (hplain : ∀ name ∈ names, IsPlain name)
    (hrules : ∀ rule, rule ∈ w.excluded ↔
      ∃ name ∈ names, rule = Rule.named name ∨ rule = Rule.below name)
    (hstart : w.start ≠ []) (hcontent : (Node.directory content).WellFormed) :
    walked w (.directory content) = (walked w.including (.directory content)).filter
      fun entry => ∀ step ∈ entry.names w.start, step ∉ names.map encode := by
  have hwanted : ∀ rule ∈ w.excluded, rule.wanted = true := by
    intro rule hrule
    obtain ⟨name, -, rfl | rfl⟩ := (hrules rule).mp hrule
    · rfl
    · rfl
  rw [walked_eq_map hwanted, walked, List.filter_map, List.filter_map, List.filter_filter]
  refine congrArg (List.map (Entry.of w.start)) (List.filter_congr fun path hpath => ?_)
  obtain ⟨hsome, hsteps⟩ := Walk.names_of_mem_files hcontent hpath
  have hslash : ∀ step ∈ path.reverse, slash ∉ step := fun step hstep =>
    (hsteps step (List.mem_reverse.mp hstep)).noSlash
  have hspares := spares_iff hne hplain hrules hslash false
  simp only [List.mem_reverse] at hspares
  have hnames : (Entry.of w.including.start path).names w.start = path :=
    Entry.names_of hstart hsome hsteps
  rw [Function.comp_apply, Function.comp_apply, hnames, Bool.and_comm, Bool.eq_iff_iff,
    Bool.and_eq_true, Bool.and_eq_true, hspares, decide_eq_true_eq]
  rfl

/-- The entries of a scan have names, and lie where these lead to from the root. -/
theorem names_of_mem_entries {t : Tree} (ht : t.top.WellFormed) {root : List UInt8}
    {options : ScanConfig} {found : List Entry} (hscan : entries t root options = .ok found) :
    ∀ entry ∈ found, entry = Entry.of root (entry.names root) ∧ entry.names root ≠ [] ∧
      ∀ name ∈ entry.names root, IsName name := by
  obtain ⟨w, content, rfl, rfl, hscans, rfl⟩ := exists_scans_of_entries hscan
  intro entry hentry
  obtain ⟨names, hfile, rfl⟩ := exists_names_of_mem_walked (mem_sorted.mp hentry)
  obtain ⟨hne, hnames⟩ := Walk.names_of_mem_files (ht.at? hscans.at_root).1 hfile
  rw [Entry.names_of hscans.start_ne_nil hne hnames]
  exact ⟨rfl, hne, hnames⟩

/-- Whatever is excluded, a scan fails for want of a directory alone, as long as the exclusions have
    rules. -/
theorem entries_eq_error {t : Tree} {root : List UInt8} {excluded others : List String}
    {respects : Bool} {rules found : List Rule} {failure : Failure}
    (hrules : exclusions excluded = .ok rules) (hfound : exclusions others = .ok found)
    (hscan : entries t root ⟨others, respects⟩ = .error failure) :
    entries t root ⟨excluded, respects⟩ = .error failure := by
  unfold entries at hscan ⊢
  simp only [hfound] at hscan
  simp only [hrules]
  cases hnames : t.names root with
  | error cause =>
    rw [hnames] at hscan
    exact hscan
  | ok names =>
    simp only [hnames, Except.mapError, bind, Except.bind] at hscan ⊢
    split at hscan
    · cases hscan
    · exact hscan

theorem exclusions_nil : exclusions [] = .ok [] := rfl

/-- A scan that excludes plain names and heeds no ignore files is a scan without exclusions, filtered;
    where one of the two fails, the other one fails alike. -/
theorem entries_eq_map_filter {t : Tree} (ht : t.top.WellFormed) (root : List UInt8)
    {excluded : List String} (hplain : ∀ name ∈ excludedNames excluded, IsPlain name) :
    entries t root ⟨excluded, false⟩ = (entries t root ⟨[], false⟩).map fun found =>
      found.filter fun entry => ∀ name ∈ entry.names root,
        name ∉ (excludedNames excluded).map encode := by
  obtain ⟨rules, hexclusions, hrules⟩ := exists_exclusions_of_isPlain hplain
  cases hscan : entries t root ⟨[], false⟩ with
  | error failure =>
    rw [entries_eq_error hexclusions exclusions_nil hscan]
    rfl
  | ok found =>
    obtain ⟨w, content, rfl, rfl, hscans, rfl⟩ := exists_scans_of_entries hscan
    have hnone : w.excluded = [] := Except.ok.inj (hscans.excluded.symm.trans exclusions_nil)
    have hincluding : { w with excluded := rules }.including = w := by
      rw [Walk.including, ← hnone]
    have hwalked := walked_of_names (w := { w with excluded := rules })
      (fun name hname => (mem_excludedNames_iff.mp hname).1) hplain hrules hscans.start_ne_nil
      (ht.at? hscans.at_root).1
    rw [hincluding] at hwalked
    rw [(hscans.excluding hexclusions).entries, hwalked, sorted_filter]
    rfl

theorem relative_of_encode {root : List UInt8} {text : List Char} (h : '\\' ∉ text) :
    (Entry.of root [encode text]).relative = text := by
  have hjoin : Text.join [slash] [encode text] = encode text := by simp [Text.join]
  show Path.shown (Text.join [slash] [encode text]) = text
  rw [hjoin, shown_encode_of_not_mem h]

/-- A directory within one of the same name. -/
def enclosingTree : Tree := ⟨.directory [(Name.of "d", .directory nestedContent)], []⟩

theorem wellFormed_enclosingTree : enclosingTree.top.WellFormed :=
  .directory (by decide) (List.forall_mem_singleton.mpr (by decide))
    (List.forall_mem_singleton.mpr wellFormed_nestedContent)

end SourceSurvey.Scan
