import Mathlib.Data.List.Basic
import SourceSurvey.Scan

/-!
The rules for excluded names. Lists of names have the rules of all their members, and none of these
rules asks for paths.
-/

namespace SourceSurvey.Scan

open Files

section Collecting

variable {α β ε : Type} {f : α → Except ε β}

/-- A list is mapped if every member is, and then to their images. -/
theorem exists_mapM_eq_ok {items : List α} (h : ∀ item ∈ items, ∃ image, f item = .ok image) :
    ∃ images, items.mapM f = .ok images := by
  induction items with
  | nil => exact ⟨[], rfl⟩
  | cons item rest ih =>
    obtain ⟨⟨image, himage⟩, hrest⟩ := List.forall_mem_cons.mp h
    obtain ⟨images, himages⟩ := ih hrest
    refine ⟨image :: images, ?_⟩
    simp only [List.mapM_cons, himage, himages]
    rfl

theorem mem_iff_of_mapM_eq_ok {items : List α} {images : List β}
    (h : items.mapM f = .ok images) :
    (∀ item ∈ items, ∃ image, f item = .ok image) ∧
      ∀ image, image ∈ images ↔ ∃ item ∈ items, f item = .ok image := by
  induction items generalizing images with
  | nil =>
    obtain rfl : [] = images := Except.ok.inj h
    simp
  | cons item rest ih =>
    rw [List.mapM_cons] at h
    cases hitem : f item with
    | error failure =>
      rw [hitem] at h
      cases h
    | ok image =>
      cases hrest : rest.mapM f with
      | error failure =>
        rw [hitem, hrest] at h
        cases h
      | ok others =>
        rw [hitem, hrest] at h
        obtain rfl : image :: others = images := Except.ok.inj h
        obtain ⟨hall, hmem⟩ := ih hrest
        refine ⟨List.forall_mem_cons.mpr ⟨⟨image, hitem⟩, hall⟩, fun other => ?_⟩
        rw [List.mem_cons, hmem, List.exists_mem_cons_iff, hitem, Except.ok.injEq, eq_comm]

end Collecting

/-- The lines that stand for some excluded names. -/
def linesOf (excluded : List String) : List (List Char) :=
  excluded.flatMap fun name => exclusionLines name.toList

/-- The exclusions of some names succeed if every line for one of them does, and consist of the rules
    on these lines. -/
theorem exists_exclusions_iff (excluded : List String) :
    (∃ rules, exclusions excluded = .ok rules) ↔
      ∀ line ∈ linesOf excluded, ∃ rule, exclusionRule line = .ok rule := by
  unfold exclusions
  rw [← linesOf]
  constructor
  · rintro ⟨rules, hrules⟩
    cases hmap : (linesOf excluded).mapM exclusionRule with
    | error failure =>
      rw [hmap] at hrules
      cases hrules
    | ok found => exact (mem_iff_of_mapM_eq_ok hmap).1
  · intro hall
    obtain ⟨found, hfound⟩ := exists_mapM_eq_ok hall
    rw [hfound]
    exact ⟨_, rfl⟩

theorem mem_exclusions_iff {excluded : List String} {rules : List Rule}
    (h : exclusions excluded = .ok rules) (rule : Rule) :
    rule ∈ rules ↔ ∃ line ∈ linesOf excluded, exclusionRule line = .ok (some rule) := by
  unfold exclusions at h
  rw [← linesOf] at h
  cases hmap : (linesOf excluded).mapM exclusionRule with
  | error failure =>
    rw [hmap] at h
    cases h
  | ok found =>
    rw [hmap] at h
    obtain rfl : found.filterMap id = rules := Except.ok.inj h
    rw [← (mem_iff_of_mapM_eq_ok hmap).2, List.mem_filterMap]
    simp

theorem linesOf_append (first second : List String) :
    linesOf (first ++ second) = linesOf first ++ linesOf second := List.flatMap_append

theorem mem_linesOf_iff {excluded : List String} {line : List Char} :
    line ∈ linesOf excluded ↔ ∃ name ∈ excluded, line ∈ exclusionLines name.toList :=
  List.mem_flatMap

/-- The line for an excluded name turns its pattern around. -/
theorem exists_of_mem_exclusionLines {name line : List Char} (h : line ∈ exclusionLines name) :
    ∃ pattern, line = '!' :: '*' :: pattern := by
  simp only [exclusionLines] at h
  split at h
  · cases h
  · rw [List.mem_pair] at h
    obtain rfl | rfl := h
    · exact ⟨_, rfl⟩
    · exact ⟨_, rfl⟩

/-- Only blanks at the end are trimmed. -/
theorem exists_trimLine (c : Char) {d : Char} (hd : Text.isBlank d = false) (rest : List Char) :
    ∃ kept, Rule.trimLine (c :: d :: rest) = c :: d :: kept := by
  unfold Rule.trimLine
  split
  · exact ⟨rest, rfl⟩
  · refine ⟨Text.trimEnd rest, ?_⟩
    have hsplit : (c :: d :: rest).reverse = rest.reverse ++ [d, c] := by simp
    rw [Text.trimEnd, Text.trimEnd, hsplit, List.dropWhile_append]
    split
    · next hempty =>
      rw [List.isEmpty_iff.mp hempty]
      simp [hd]
    · simp

theorem wanted_of_parse? {lenient : Bool} {pattern : List Char} {rule : Rule}
    (h : Rule.parse? lenient ('!' :: '*' :: pattern) = .ok (some rule)) : rule.wanted = true := by
  obtain ⟨kept, hkept⟩ := exists_trimLine '!' (d := '*') rfl pattern
  have hopening : Rule.opening ('!' :: '*' :: kept) = (true, false, '*' :: kept) := rfl
  simp only [Rule.parse?, hkept, hopening, bind, Except.bind] at h
  split at h
  · cases h
  · split at h
    · cases h
    · cases h
      rfl

/-- No rule for an excluded name asks for paths. -/
theorem wanted_of_mem_exclusions {excluded : List String} {rules : List Rule}
    (h : exclusions excluded = .ok rules) : ∀ rule ∈ rules, rule.wanted = true := by
  intro rule hrule
  obtain ⟨line, hline, hparse⟩ := (mem_exclusions_iff h rule).mp hrule
  obtain ⟨name, -, hname⟩ := mem_linesOf_iff.mp hline
  obtain ⟨pattern, rfl⟩ := exists_of_mem_exclusionLines hname
  unfold exclusionRule at hparse
  cases hfound : Rule.parse? false ('!' :: '*' :: pattern) with
  | error problem =>
    rw [hfound] at hparse
    cases hparse
  | ok found =>
    rw [hfound] at hparse
    obtain rfl : found = some rule := Except.ok.inj hparse
    exact wanted_of_parse? hfound

/-- The same names in another order, or more often, have the same rules. -/
theorem exists_exclusions_of_mem_iff {excluded others : List String}
    (hsame : ∀ name, name ∈ excluded ↔ name ∈ others) {rules : List Rule}
    (h : exclusions excluded = .ok rules) :
    ∃ found, exclusions others = .ok found ∧ ∀ rule, rule ∈ found ↔ rule ∈ rules := by
  have hlines : ∀ line, line ∈ linesOf others ↔ line ∈ linesOf excluded := by
    simp only [mem_linesOf_iff, hsame, implies_true]
  have hall := (exists_exclusions_iff excluded).mp ⟨rules, h⟩
  obtain ⟨found, hfound⟩ := (exists_exclusions_iff others).mpr
    fun line hline => hall line ((hlines line).mp hline)
  refine ⟨found, hfound, fun rule => ?_⟩
  simp only [mem_exclusions_iff h, mem_exclusions_iff hfound, hlines]

/-- Two lists of names have the rules of both. -/
theorem exists_exclusions_append {first second : List String} {rules others : List Rule}
    (hfirst : exclusions first = .ok rules) (hsecond : exclusions second = .ok others) :
    ∃ found, exclusions (first ++ second) = .ok found ∧
      ∀ rule, rule ∈ found ↔ rule ∈ rules ∨ rule ∈ others := by
  have hlines := (exists_exclusions_iff first).mp ⟨rules, hfirst⟩
  have hothers := (exists_exclusions_iff second).mp ⟨others, hsecond⟩
  obtain ⟨found, hfound⟩ := (exists_exclusions_iff (first ++ second)).mpr (by
    rw [linesOf_append]
    exact List.forall_mem_append.mpr ⟨hlines, hothers⟩)
  refine ⟨found, hfound, fun rule => ?_⟩
  rw [mem_exclusions_iff hfound, mem_exclusions_iff hfirst, mem_exclusions_iff hsecond,
    linesOf_append]
  simp only [List.mem_append, or_and_right, exists_or]

end SourceSurvey.Scan
